import Mathlib.Data.List.Basic

/-!
# Programs that call an environment

A program computes, fails, or calls an operation of its environment and goes on with the answer.
It is run against a handler, which answers operations and keeps a state of its own; the run yields
the calls made with their answers, in order.

* `Program.run` : the run of a program against a handler;
* `Program.Safe` : every call is made only when its guard holds of the calls made so far, and the
  result is right about all of them, whatever the answers;
* `Program.safe_bind` : `Safe` of a sequence is `Safe` of its first part for the second part's
  `Safe`;
* `Program.run_of_safe` : **a safe program is safe in every run**.
-/

/-- A program with results in `α` and errors in `ε` that calls operations `Op`. -/
inductive Program (ε : Type) (Op : Type) (Answer : Op → Type) (α : Type) where
  | done (a : α)
  | fail (e : ε)
  | call (op : Op) (next : Answer op → Program ε Op Answer α)

namespace Program

variable {ε Op : Type} {Answer : Op → Type} {α β : Type} {σ : Type*}

/-- A call with its answer. -/
abbrev Event (Op : Type) (Answer : Op → Type) := (op : Op) × Answer op

/-- One program after another. -/
protected def bind : Program ε Op Answer α → (α → Program ε Op Answer β) → Program ε Op Answer β
  | done a, f => f a
  | fail e, _ => fail e
  | call op next, f => call op fun x => (next x).bind f

instance : Monad (Program ε Op Answer) where
  pure := done
  bind := Program.bind

theorem bind_assoc {γ : Type} (p : Program ε Op Answer α) (f : α → Program ε Op Answer β)
    (g : β → Program ε Op Answer γ) : p >>= f >>= g = p >>= fun a => f a >>= g := by
  induction p with
  | done a => rfl
  | fail e => rfl
  | call op next ih => exact congrArg (call op) (funext fun x => ih x)

/-- Call `op` and take its answer. -/
def perform (op : Op) : Program ε Op Answer (Answer op) := call op done

/-- A result without a call. -/
def ofExcept : Except ε α → Program ε Op Answer α
  | .ok a => done a
  | .error e => fail e

/-- The calls, the result and the handler's state after a run. -/
def run (handler : σ → (op : Op) → Answer op × σ) :
    Program ε Op Answer α → σ → List (Event Op Answer) × Except ε α × σ
  | done a, s => ([], .ok a, s)
  | fail e, s => ([], .error e, s)
  | call op next, s =>
    let (x, s) := handler s op
    let (calls, result, s) := (next x).run handler s
    (⟨op, x⟩ :: calls, result, s)

/-- After the calls `h`, every call meets its guard `C` and the result meets `Q`. -/
def Safe (C : List (Event Op Answer) → Op → Prop)
    (Q : List (Event Op Answer) → Except ε α → Prop) :
    List (Event Op Answer) → Program ε Op Answer α → Prop
  | h, done a => Q h (.ok a)
  | h, fail e => Q h (.error e)
  | h, call op next => C h op ∧ ∀ x, (next x).Safe C Q (h ++ [⟨op, x⟩])

section Rules

variable {C : List (Event Op Answer) → Op → Prop}
  {Q Q' : List (Event Op Answer) → Except ε α → Prop} {h : List (Event Op Answer)}

@[simp] theorem safe_pure (a : α) :
    (pure a : Program ε Op Answer α).Safe C Q h ↔ Q h (.ok a) := Iff.rfl

@[simp] theorem safe_fail (e : ε) :
    (fail e : Program ε Op Answer α).Safe C Q h ↔ Q h (.error e) := Iff.rfl

@[simp] theorem safe_perform {op : Op}
    {Q : List (Event Op Answer) → Except ε (Answer op) → Prop} :
    (perform op).Safe C Q h ↔ C h op ∧ ∀ x, Q (h ++ [⟨op, x⟩]) (.ok x) := Iff.rfl

@[simp] theorem safe_ofExcept (r : Except ε α) :
    (ofExcept r : Program ε Op Answer α).Safe C Q h ↔ Q h r := by
  cases r with
  | ok a => exact Iff.rfl
  | error e => exact Iff.rfl

/-- What has to hold after the first part of a sequence. -/
def Continue (C : List (Event Op Answer) → Op → Prop)
    (Q : List (Event Op Answer) → Except ε β → Prop) (f : α → Program ε Op Answer β)
    (h : List (Event Op Answer)) : Except ε α → Prop
  | .ok a => (f a).Safe C Q h
  | .error e => Q h (.error e)

theorem safe_bind {Q : List (Event Op Answer) → Except ε β → Prop} (p : Program ε Op Answer α)
    (f : α → Program ε Op Answer β) :
    (p >>= f).Safe C Q h ↔ p.Safe C (Continue C Q f) h := by
  induction p generalizing h with
  | done a => exact Iff.rfl
  | fail e => exact Iff.rfl
  | call op next ih => exact and_congr_right fun _ => forall_congr' fun x => ih x

theorem Safe.mono {p : Program ε Op Answer α} (hQ : ∀ h r, Q h r → Q' h r)
    (hp : p.Safe C Q h) : p.Safe C Q' h := by
  induction p generalizing h with
  | done a => exact hQ _ _ hp
  | fail e => exact hQ _ _ hp
  | call op next ih => exact ⟨hp.1, fun x => ih x (hp.2 x)⟩

/-- **A safe program is safe in every run**: each call met its guard when it was made, and the
result is right about all calls. -/
theorem run_of_safe {p : Program ε Op Answer α} (hp : p.Safe C Q h)
    (handler : σ → (op : Op) → Answer op × σ) (s : σ) :
    Q (h ++ (p.run handler s).1) (p.run handler s).2.1 ∧
      ∀ before event after, (p.run handler s).1 = before ++ event :: after →
        C (h ++ before) event.1 := by
  induction p generalizing h s with
  | done a =>
    refine ⟨by simpa [run, Safe] using hp, fun before event after heq => ?_⟩
    simp [run] at heq
  | fail e =>
    refine ⟨by simpa [run, Safe] using hp, fun before event after heq => ?_⟩
    simp [run] at heq
  | call op next ih =>
    obtain ⟨hc, hnext⟩ := hp
    obtain ⟨hq, hcalls⟩ := ih _ (hnext (handler s op).1) (handler s op).2
    refine ⟨by simpa [run] using hq, fun before event after heq => ?_⟩
    cases before with
    | nil =>
      simp only [run, List.nil_append, List.cons.injEq] at heq
      rw [← heq.1]
      simpa using hc
    | cons first before =>
      simp only [run, List.cons_append, List.cons.injEq] at heq
      rw [← heq.1]
      simpa using hcalls before event after heq.2

end Rules

end Program
