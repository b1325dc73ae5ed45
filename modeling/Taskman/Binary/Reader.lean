import Taskman.Binary.Bytes

/-!
# Readers

A reader takes bytes from the front of a byte string.  It keeps what is left of the string also
when it fails.

* `Reader` : a computation that reads, with `Reader.read` for what it does to a string;
* `Reader.readExact` : a given number of bytes;
* `Reader.Reads` : how much of a string a reader takes at most, with **one rule for each way to put
  readers together**.
-/

/-- A computation that reads a byte string from its front. -/
abbrev Reader (ε α : Type) := ExceptT ε (StateM Bytes) α

namespace Reader

variable {ε α β : Type}

/-- The result on a string, and what is left of the string. -/
def read (x : Reader ε α) (bs : Bytes) : Except ε α × Bytes := x.run.run bs

/-- `Read::read_exact` on a string: the next `n` bytes, or the error of a string that ends
before, which leaves nothing. -/
def readExact (eof : ε) (n : ℕ) : Reader ε Bytes :=
  .mk (.mk fun bs => if n ≤ bs.length then (.ok (bs.take n), bs.drop n) else (.error eof, []))

/-- Go on if a condition holds. -/
def ensure (c : Prop) [Decidable c] (e : ε) : Reader ε Unit :=
  if c then pure () else throw e

theorem read_readExact {eof : ε} {n : ℕ} {bs : Bytes} :
    (readExact eof n).read bs =
      if n ≤ bs.length then (.ok (bs.take n), bs.drop n) else (.error eof, []) := rfl

theorem read_bind (x : Reader ε α) (f : α → Reader ε β) (bs : Bytes) :
    (x >>= f).read bs = match x.read bs with
      | (.ok a, rest) => (f a).read rest
      | (.error e, rest) => (.error e, rest) := by
  show (ExceptT.bindCont (fun a => f a) (x.run.run bs).1).run (x.run.run bs).2 = _
  unfold read
  obtain ⟨result, rest⟩ := x.run.run bs
  cases result <;> rfl

theorem read_bind_eq_ok {x : Reader ε α} {f : α → Reader ε β} {bs rest : Bytes} {b : β} :
    (x >>= f).read bs = (.ok b, rest) ↔
      ∃ a between, x.read bs = (.ok a, between) ∧ (f a).read between = (.ok b, rest) := by
  rw [read_bind]
  obtain ⟨result, between⟩ := x.read bs
  cases result with
  | error e =>
    constructor
    · exact nofun
    · rintro ⟨a, _, ha, -⟩
      cases ha
  | ok a =>
    constructor
    · exact fun h => ⟨a, between, rfl, h⟩
    · rintro ⟨a', between', ha, h⟩
      cases ha
      exact h

theorem readExact_eq_ok {eof : ε} {n : ℕ} {bs out rest : Bytes} :
    (readExact eof n).read bs = (.ok out, rest) ↔ bs = out ++ rest ∧ out.length = n := by
  rw [read_readExact]
  split_ifs with h
  · constructor
    · intro he
      cases he
      exact ⟨(List.take_append_drop n bs).symm, List.length_take_of_le h⟩
    · rintro ⟨rfl, rfl⟩
      rw [List.take_left, List.drop_left]
  · constructor
    · exact nofun
    · rintro ⟨rfl, rfl⟩
      exact absurd (by simp) h

theorem ensure_eq_ok {c : Prop} [Decidable c] {e : ε} {bs rest : Bytes} {u : Unit} :
    (ensure c e).read bs = (.ok u, rest) ↔ c ∧ rest = bs := by
  unfold ensure
  split_ifs with h
  · exact ⟨fun he => by cases he; exact ⟨h, rfl⟩, fun he => by rw [he.2]; rfl⟩
  · exact iff_of_false nofun fun he => h he.1

/-! ### How much is read -/

/-- On the string `bs` the reader takes bytes off the front, at most `limit` of them. -/
def Reads (x : Reader ε α) (bs : Bytes) (limit : ℕ) : Prop :=
  ∃ taken, bs = taken ++ (x.read bs).2 ∧ taken.length ≤ limit

theorem reads_readExact (eof : ε) (n : ℕ) (bs : Bytes) : (readExact eof n).Reads bs n := by
  unfold Reads
  rw [read_readExact]
  split_ifs with h
  · exact ⟨bs.take n, (List.take_append_drop n bs).symm, (List.length_take_le n bs)⟩
  · exact ⟨bs, (List.append_nil bs).symm, by omega⟩

/-- **Readers in sequence**: the second need only be bounded where the first succeeds. -/
theorem Reads.bind {x : Reader ε α} {f : α → Reader ε β} {bs : Bytes} {n m : ℕ}
    (hx : x.Reads bs n)
    (hf : ∀ a rest, x.read bs = (.ok a, rest) → (f a).Reads rest m) :
    (x >>= f).Reads bs (n + m) := by
  obtain ⟨taken, hbs, hlen⟩ := hx
  unfold Reads
  rw [read_bind]
  cases hread : x.read bs with
  | mk result rest =>
    rw [hread] at hbs
    cases result with
    | error e => exact ⟨taken, hbs, by omega⟩
    | ok a =>
      obtain ⟨taken', hrest, hlen'⟩ := hf a rest hread
      refine ⟨taken ++ taken', ?_, ?_⟩
      · rw [List.append_assoc, ← hrest]
        exact hbs
      · rw [List.length_append]
        omega

/-- A check reads nothing. -/
theorem Reads.ensure_bind {c : Prop} [Decidable c] {e : ε} {f : Unit → Reader ε β} {bs : Bytes}
    {m : ℕ} (hf : (f ()).Reads bs m) : (ensure c e >>= f).Reads bs m := by
  have hensure : (ensure c e).Reads bs 0 := by
    refine ⟨[], ?_, le_rfl⟩
    unfold ensure
    split_ifs <;> rfl
  rw [← zero_add m]
  refine hensure.bind fun _ rest h => ?_
  rw [(ensure_eq_ok.mp h).2]
  exact hf

end Reader
