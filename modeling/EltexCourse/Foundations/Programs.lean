import Mathlib.Tactic.TypeStar

/-!
# Sequential programs between two streams

A program reads bytes, writes bytes and exits; what it does next depends on
nothing but what it has read. `Produces` runs it alone, on an input that is
there in full, as on a file.
-/

set_option autoImplicit false

namespace EltexCourse.Foundations.Programs

variable {Byte σ : Type*}

/-- The next act of a program. A read goes on with the byte it got, or with
nothing at the end of the input. -/
inductive Act (Byte σ : Type*) where
  | read (next : Option Byte → σ)
  | write (b : Byte) (next : σ)
  | exit (status : Nat)

/-- On `input` the program that is now at `s` exits with `status` after `n` acts,
having written `output`. -/
inductive Produces (act : σ → Act Byte σ) : Nat → List Byte → σ → List Byte → Nat → Prop where
  | exit {input : List Byte} {s : σ} {status : Nat} (ends : act s = .exit status) :
      Produces act 1 input s [] status
  | write {n : Nat} {input output : List Byte} {b : Byte} {s next : σ} {status : Nat}
      (writes : act s = .write b next) (rest : Produces act n input next output status) :
      Produces act (n + 1) input s (b :: output) status
  | read {n : Nat} {b : Byte} {input output : List Byte} {s : σ} {next : Option Byte → σ}
      {status : Nat} (reads : act s = .read next)
      (rest : Produces act n input (next (some b)) output status) :
      Produces act (n + 1) (b :: input) s output status
  | finish {n : Nat} {output : List Byte} {s : σ} {next : Option Byte → σ} {status : Nat}
      (reads : act s = .read next) (rest : Produces act n [] (next none) output status) :
      Produces act (n + 1) [] s output status

variable {act : σ → Act Byte σ} {n status : Nat} {b : Byte} {input output : List Byte} {s : σ}

theorem Produces.pos (produces : Produces act n input s output status) : 0 < n := by
  cases produces <;> omega

/-- A command at its exit has nothing more to write, and the status it was to have. -/
theorem Produces.of_exit {code : Nat} (produces : Produces act n input s output status)
    (ends : act s = .exit code) : output = [] ∧ code = status := by
  cases produces with
  | exit ends' =>
    cases ends.symm.trans ends'
    exact ⟨rfl, rfl⟩
  | write writes => cases ends.symm.trans writes
  | read reads => cases ends.symm.trans reads
  | finish reads => cases ends.symm.trans reads

theorem Produces.of_write {next : σ} (produces : Produces act n input s output status)
    (writes : act s = .write b next) :
    ∃ m later, n = m + 1 ∧ output = b :: later ∧ Produces act m input next later status := by
  cases produces with
  | exit ends => cases writes.symm.trans ends
  | write writes' rest =>
    cases writes.symm.trans writes'
    exact ⟨_, _, rfl, rfl, rest⟩
  | read reads => cases writes.symm.trans reads
  | finish reads => cases writes.symm.trans reads

/-- A command at a read takes the first byte of what it has still to read. -/
theorem Produces.of_read {next : Option Byte → σ}
    (produces : Produces act n (b :: input) s output status) (reads : act s = .read next) :
    ∃ m, n = m + 1 ∧ Produces act m input (next (some b)) output status := by
  cases produces with
  | exit ends => cases reads.symm.trans ends
  | write writes => cases reads.symm.trans writes
  | read reads' rest =>
    cases reads.symm.trans reads'
    exact ⟨_, rfl, rest⟩

theorem Produces.of_finish {next : Option Byte → σ}
    (produces : Produces act n [] s output status) (reads : act s = .read next) :
    ∃ m, n = m + 1 ∧ Produces act m [] (next none) output status := by
  cases produces with
  | exit ends => cases reads.symm.trans ends
  | write writes => cases reads.symm.trans writes
  | finish reads' rest =>
    cases reads.symm.trans reads'
    exact ⟨_, rfl, rest⟩

/-- A program reads what is written to another: each command alone on the whole
text its predecessor leaves, `texts i` being in front of the `i`-th. -/
structure OneByOne (act : σ → Act Byte σ) (commands : List σ) (texts : Nat → List Byte)
    (steps status : Nat → Nat) : Prop where
  produces : ∀ i s, commands[i]? = some s →
    Produces act (steps i) (texts i) s (texts (i + 1)) (status i)

end EltexCourse.Foundations.Programs
