import Taskman.Text.Scan
import Mathlib.Data.List.Infix

/-!
# Windows-owned images

A process whose token cannot be opened is given a fixed account by its image name, but only on
positive evidence: an image under the Windows directory, or in one of Defender's directories, from
Microsoft.

* `normalizeWindowsPath`, `windowsOwnedEvidence` : the evidence, from the publisher and the path;
* `fallbackUserForKnownRole` : the account it is good for;
* `Trusted`, `NamesDefender` : a path under the Windows directory or under Defender's directories at
  the root of the same drive, and a path with such a directory's name anywhere in it;
* `NotSpoofed` : only a trusted path is answered positively, and one that only carries the name is
  answered negatively and gets no account;
* `not_spoofed_iff` : **which publishers and paths are answered so**: all but an untrusted path with
  Defender's name in it whose publisher is Microsoft, or unknown.
-/

namespace Taskman.Sampler

/-- One separator, none at the end, lower case. -/
def normalizeWindowsPath (path : Text) : Text :=
  Text.toAsciiLowercase ((path.map fun c => if c = '/' then '\\' else c).rdropWhile (· == '\\'))

/-- The company of an image is that of Windows. -/
def microsoftCompany (company : Option Text) : Bool :=
  company.any fun company =>
    let company := Text.toAsciiLowercase company.trim
    company == Text.toAsciiLowercase "Microsoft Corporation".toList ||
      company == Text.toAsciiLowercase "Microsoft Windows".toList

/-- Defender's directories, outside the Windows directory. -/
def defenderDirs : List Text :=
  ["\\programdata\\microsoft\\windows defender\\".toList,
    "\\program files\\windows defender\\".toList,
    "\\program files (x86)\\windows defender\\".toList]

/-- Whether an image is Microsoft-published from a Windows-owned path; `none` where the location or
the publisher is unknown. -/
def windowsOwnedEvidence (company exePath : Option Text) (systemRoot : Text) : Option Bool := do
  let path := normalizeWindowsPath (← exePath)
  let root := normalizeWindowsPath systemRoot
  let inWindowsLocation := path == root || (root ++ ['\\']).isPrefixOf path ||
    defenderDirs.any fun dir => decide (dir <:+: path)
  if !inWindowsLocation then
    some false
  else
    -- the location is right, the publisher decides
    company.map fun company => microsoftCompany (some company)

/-! ### The account of a system role -/

/-- What identifies a process as one of the fixed system roles. -/
inductive RoleEvidence where
  | verifiedWindowsImage | kernelPseudoProcess | none
  deriving DecidableEq

/-- Kernel pseudo-processes have a bare name in place of a path. -/
def kernelPseudoRole (exePath : Option Text) (unicode : Bool) : Option Text := do
  let text ← exePath.filter fun _ => unicode
  if text.any (fun c => c == '\\' || c == '/') || text.contains '.' then
    none
  else if ["registry".toList, "memcompression".toList, "secure system".toList,
      "[system process]".toList].contains (Text.toAsciiLowercase text) then
    some text
  else
    none

/-- The evidence a process's image gives. -/
def roleEvidence (company exePath : Option Text) (unicode : Bool) (systemRoot : Text) :
    RoleEvidence :=
  if windowsOwnedEvidence company exePath systemRoot = some true then .verifiedWindowsImage
  else if (kernelPseudoRole exePath unicode).isSome then .kernelPseudoProcess
  else .none

/-- `format!("{prefix}-{session}")`. -/
def sessionUser (stem : Text) (session : ℕ) : Text := stem ++ '-' :: Nat.toDigits 10 session

/-- The user of a process of Windows whose own one cannot be read. -/
def fallbackUserForKnownRole (stem : Text) (session : Option ℕ) (evidence : RoleEvidence) :
    Option Text :=
  match evidence with
  | .verifiedWindowsImage =>
    if stem = "dwm".toList then some (sessionUser "DWM".toList (session.getD 1))
    else if stem = "fontdrvhost".toList then some (sessionUser "UMFD".toList (session.getD 0))
    else if ["[system process]".toList, "system".toList, "secure system".toList,
        "registry".toList, "memory compression".toList, "smss".toList, "csrss".toList,
        "wininit".toList, "services".toList, "lsass".toList, "winlogon".toList].contains stem then
      some "SYSTEM".toList
    else none
  | .kernelPseudoProcess =>
    if ["registry".toList, "memory compression".toList, "secure system".toList,
        "memcompression".toList].contains stem then
      some "SYSTEM".toList
    else none
  | .none => none

/-! ### What a path says -/

/-- A path in or below the Windows directory. -/
def UnderWindows (systemRoot path : Text) : Prop :=
  normalizeWindowsPath path = normalizeWindowsPath systemRoot ∨
    normalizeWindowsPath systemRoot ++ ['\\'] <+: normalizeWindowsPath path

/-- A path below one of Defender's directories at the root of the drive of the Windows directory. -/
def UnderDefender (systemRoot path : Text) : Prop :=
  ∃ drive : Char, drive.isAlpha = true ∧ [drive, ':'] <+: normalizeWindowsPath systemRoot ∧
    ∃ dir ∈ defenderDirs, drive :: ':' :: dir <+: normalizeWindowsPath path

/-- A path in a place that belongs to Windows: its own directory, or one of Defender's on the same
drive. -/
def Trusted (systemRoot path : Text) : Prop :=
  UnderWindows systemRoot path ∨ UnderDefender systemRoot path

/-- A path with the name of one of Defender's directories anywhere in it. -/
def NamesDefender (path : Text) : Prop := ∃ dir ∈ defenderDirs, dir <:+: normalizeWindowsPath path

instance (path : Text) : Decidable (NamesDefender path) :=
  inferInstanceAs (Decidable (∃ dir ∈ defenderDirs, dir <:+: normalizeWindowsPath path))

/-! ### The evidence -/

variable {company : Option Text} {path systemRoot : Text}

/-- The publisher decides where the path is under the Windows directory or names Defender. -/
theorem windowsOwnedEvidence_of_location (h : UnderWindows systemRoot path ∨ NamesDefender path) :
    windowsOwnedEvidence company (some path) systemRoot =
      company.map fun company => microsoftCompany (some company) := by
  have hlocation : (normalizeWindowsPath path == normalizeWindowsPath systemRoot ||
      (normalizeWindowsPath systemRoot ++ ['\\']).isPrefixOf (normalizeWindowsPath path) ||
      defenderDirs.any fun dir => decide (dir <:+: normalizeWindowsPath path)) = true := by
    simp only [Bool.or_eq_true, beq_iff_eq, List.isPrefixOf_iff_prefix, List.any_eq_true,
      decide_eq_true_eq]
    exact h
  refine (if_neg ?_)
  rw [hlocation]
  exact Bool.false_ne_true

/-- Everything else is answered negatively. -/
theorem windowsOwnedEvidence_of_elsewhere (hroot : ¬ UnderWindows systemRoot path)
    (hnames : ¬ NamesDefender path) :
    windowsOwnedEvidence company (some path) systemRoot = some false := by
  have hlocation : (normalizeWindowsPath path == normalizeWindowsPath systemRoot ||
      (normalizeWindowsPath systemRoot ++ ['\\']).isPrefixOf (normalizeWindowsPath path) ||
      defenderDirs.any fun dir => decide (dir <:+: normalizeWindowsPath path)) = false := by
    rw [← Bool.not_eq_true]
    simp only [Bool.or_eq_true, beq_iff_eq, List.isPrefixOf_iff_prefix, List.any_eq_true,
      decide_eq_true_eq]
    exact not_or.mpr ⟨hroot, hnames⟩
  refine (if_pos ?_)
  rw [hlocation]
  rfl

theorem toLower_eq_backslash {c : Char} (h : c.toLower = '\\') : c = '\\' := by
  rcases Text.toLower_cases c with heq | ⟨hlo, -, heq⟩
  · rwa [heq] at h
  · rw [h] at heq
    have hnat : '\\'.toNat = 92 := rfl
    omega

/-- A separator of the normalised path is one of the path. -/
theorem exists_separator (h : '\\' ∈ normalizeWindowsPath path) :
    ∃ c ∈ path, c = '\\' ∨ c = '/' := by
  obtain ⟨c, hc, hlower⟩ := List.mem_map.mp h
  obtain rfl := toLower_eq_backslash hlower
  obtain ⟨d, hd, heq⟩ := List.mem_map.mp ((List.rdropWhile_prefix _ _).subset hc)
  refine ⟨d, hd, ?_⟩
  split at heq
  · rename_i hslash
    exact Or.inr hslash
  · exact Or.inl heq

/-- A path with a separator is no kernel pseudo-process. -/
theorem kernelPseudoRole_of_names (h : NamesDefender path) (unicode : Bool) :
    kernelPseudoRole (some path) unicode = none := by
  have hsep : path.any (fun c => c == '\\' || c == '/') = true := by
    obtain ⟨dir, hdir, hwithin⟩ := h
    have hdirSep : ∀ dir ∈ defenderDirs, '\\' ∈ dir := by decide
    obtain ⟨c, hc, heq⟩ := exists_separator (hwithin.subset (hdirSep dir hdir))
    exact List.any_eq_true.mpr ⟨c, hc, by simpa using heq⟩
  unfold kernelPseudoRole
  cases unicode with
  | false => rfl
  | true => exact if_pos (by rw [hsep, Bool.true_or])

/-- Only a trusted path is answered positively; a path that merely carries the name of one of
Defender's directories is answered negatively, and what runs there is given no account. -/
structure NotSpoofed (company : Option Text) (path systemRoot : Text) : Prop where
  positive : windowsOwnedEvidence company (some path) systemRoot = some true →
    Trusted systemRoot path
  negative : ¬ Trusted systemRoot path → NamesDefender path →
    windowsOwnedEvidence company (some path) systemRoot = some false
  role : ¬ Trusted systemRoot path → NamesDefender path → ∀ stem session unicode,
    fallbackUserForKnownRole stem session
      (roleEvidence company (some path) unicode systemRoot) = none

/-- **Evidence is not spoofed exactly if the path is trusted, or does not name Defender's
directories, or has a publisher that is known not to be Microsoft.** -/
theorem not_spoofed_iff (company : Option Text) (path systemRoot : Text) :
    NotSpoofed company path systemRoot ↔
      Trusted systemRoot path ∨ ¬ NamesDefender path ∨
        ∃ publisher, company = some publisher ∧ microsoftCompany (some publisher) = false := by
  constructor
  · intro h
    by_cases htrusted : Trusted systemRoot path
    · exact Or.inl htrusted
    · by_cases hnames : NamesDefender path
      · have hanswer := h.negative htrusted hnames
        rw [windowsOwnedEvidence_of_location (Or.inr hnames)] at hanswer
        exact Or.inr (Or.inr (Option.map_eq_some_iff.mp hanswer))
      · exact Or.inr (Or.inl hnames)
  · rintro (htrusted | hnames | ⟨publisher, rfl, hpublisher⟩)
    · exact ⟨fun _ => htrusted, fun hnot => absurd htrusted hnot, fun hnot => absurd htrusted hnot⟩
    · refine ⟨fun hanswer => ?_, fun _ h => absurd h hnames, fun _ h => absurd h hnames⟩
      by_contra hnot
      rw [windowsOwnedEvidence_of_elsewhere (fun h => hnot (Or.inl h)) hnames] at hanswer
      cases hanswer
    · have hanswer : NamesDefender path →
          windowsOwnedEvidence (some publisher) (some path) systemRoot = some false := by
        intro hnames
        rw [windowsOwnedEvidence_of_location (Or.inr hnames), Option.map_some, hpublisher]
      refine ⟨fun hpositive => ?_, fun _ => hanswer, fun _ hnames stem session unicode => ?_⟩
      · by_cases hnames : NamesDefender path
        · rw [hanswer hnames] at hpositive
          cases hpositive
        · by_contra hnot
          rw [windowsOwnedEvidence_of_elsewhere (fun h => hnot (Or.inl h)) hnames] at hpositive
          cases hpositive
      · have hevidence : roleEvidence (some publisher) (some path) unicode systemRoot = .none := by
          rw [roleEvidence, if_neg (by rw [hanswer hnames]; decide), if_neg]
          rw [kernelPseudoRole_of_names hnames]
          decide
        rw [hevidence]
        rfl

/-- A copy of a core image in a user's own folder of that name is answered positively, and runs
under the system account. -/
theorem spoofed_user_folder :
    let company := some "Microsoft Corporation".toList
    let path := "C:\\Users\\x\\ProgramData\\Microsoft\\Windows Defender\\csrss.exe".toList
    let systemRoot := "C:\\Windows".toList
    windowsOwnedEvidence company (some path) systemRoot = some true ∧
      fallbackUserForKnownRole "csrss".toList (some 1)
        (roleEvidence company (some path) true systemRoot) = some "SYSTEM".toList ∧
      ¬ Trusted systemRoot path ∧ ¬ NotSpoofed company path systemRoot := by
  intro company path systemRoot
  have hanswer : windowsOwnedEvidence company (some path) systemRoot = some true := by
    decide +kernel
  have hnot : ¬ Trusted systemRoot path := by
    rintro ((h | h) | ⟨drive, -, -, dir, hdir, h⟩)
    · revert h
      decide +kernel
    · revert h
      decide +kernel
    · have hall : ∀ dir ∈ defenderDirs,
          ¬ dir <+: (normalizeWindowsPath path).drop 2 := by decide +kernel
      refine hall dir hdir ?_
      obtain ⟨rest, hrest⟩ := h
      exact ⟨rest, by rw [← hrest]; rfl⟩
  refine ⟨hanswer, by decide +kernel, hnot, fun h => hnot (h.positive hanswer)⟩

/-- Defender's engine in its own directory is answered positively, and that is right. -/
theorem not_spoofed_iff_engine :
    let company := some "Microsoft Corporation".toList
    let path := "C:\\ProgramData\\Microsoft\\Windows Defender\\MsMpEng.exe".toList
    let systemRoot := "C:\\Windows".toList
    windowsOwnedEvidence company (some path) systemRoot = some true ∧
      NotSpoofed company path systemRoot := by
  intro company path systemRoot
  refine ⟨by decide +kernel, (not_spoofed_iff company path systemRoot).mpr (Or.inl (Or.inr ?_))⟩
  exact ⟨'c', by decide +kernel, by decide +kernel, _, List.mem_cons_self, by decide +kernel⟩

end Taskman.Sampler
