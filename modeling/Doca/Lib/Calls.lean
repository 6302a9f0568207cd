import Mathlib.Tactic.Common

/-!
# Programs that call out

A program over a state `S` either returns a value, or fails with an error and keeps what it has done
to the state, or has no defined outcome.

* `Prog S E A` with its monad; `Prog.fail` raises an error, `Prog.gets` and `Prog.modify`
  read and change the state, `Prog.lift` and `Prog.ofOption` run a computation without state,
  `Prog.zoom` one on a part of it.
* `Prog.bind_ok`, `Prog.pure_ok`, `Prog.gets_ok`, `Prog.fail_ok`, `Prog.ite_ok` — what a run that
  returned did, step by step.
* `Prog.bind_of_ok`, `Prog.bind_of_error` — how a program goes on after its first step.
* `Prog.Moves` — a relation between the states before and after every run, with the rules for its
  composition.
* `Prog.wp` — the weakest precondition for a normal end and for an error, one rule per construct;
  `Prog.times` — a loop over `0, …, n - 1`, with its invariant rule `Prog.wp_times`.
-/

namespace Doca.Lib

/-- A program over the state `S`; `none` stands for a run that does not return, or that leaves the
    memory it owns. -/
def Prog (S E A : Type) : Type := S → Option (Except E A × S)

namespace Prog

variable {S E A B : Type}

protected def bind (x : Prog S E A) (f : A → Prog S E B) : Prog S E B := fun s =>
  match x s with
  | some (.ok a, s') => f a s'
  | some (.error e, s') => some (.error e, s')
  | none => none

instance : Monad (Prog S E) where
  pure a := fun s => some (.ok a, s)
  bind := Prog.bind

def fail (e : E) : Prog S E A := fun s => some (.error e, s)

def step (f : S → Except E A × S) : Prog S E A := fun s => some (f s)

def gets (f : S → A) : Prog S E A := step fun s => (.ok (f s), s)

def modify (f : S → S) : Prog S E Unit := step fun s => (.ok (), f s)

def lift (r : Except E A) : Prog S E A := step fun s => (r, s)

def ofOption (r : Option A) : Prog S E A := fun s => r.map fun a => (.ok a, s)

def zoom {T : Type} (get : S → T) (set : S → T → S) (x : Prog T E A) : Prog S E A := fun s =>
  (x (get s)).map fun r => (r.1, set s r.2)

/-! ## Runs that returned -/

variable {x : Prog S E A} {f : A → Prog S E B} {s s' s'' : S}

theorem bind_ok {b : B} : (x >>= f) s = some (.ok b, s'') ↔
      ∃ a s', x s = some (.ok a, s') ∧ f a s' = some (.ok b, s'') := by
  show Prog.bind x f s = _ ↔ _
  unfold Prog.bind
  split
  · rename_i a s' hx
    refine ⟨fun h => ⟨a, s', hx, h⟩, ?_⟩
    rintro ⟨a₁, s₁, hx₁, h⟩
    rw [hx] at hx₁
    cases hx₁
    exact h
  · rename_i e s' hx
    simp [hx]
  · rename_i hx
    simp [hx]

theorem pure_ok {a b : A} : (pure a : Prog S E A) s = some (.ok b, s') ↔ a = b ∧ s = s' := by
  show some (Except.ok a, s) = some (Except.ok b, s') ↔ _
  simp

theorem gets_ok {g : S → A} {a : A} : (gets g : Prog S E A) s = some (.ok a, s') ↔ g s = a ∧ s = s' := by
  simp [gets, step]

theorem fail_ok {e : E} {a : A} : (fail e : Prog S E A) s = some (.ok a, s') ↔ False := by
  simp [fail]

theorem ite_ok {c : Prop} [Decidable c] {y : Prog S E A} {a : A} :
    (if c then x else y) s = some (.ok a, s') ↔
      (c ∧ x s = some (.ok a, s')) ∨ (¬ c ∧ y s = some (.ok a, s')) := by
  by_cases hc : c <;> simp [hc]

/-! ## Running a program -/

theorem bind_of_ok {a : A} (h : x s = some (.ok a, s')) : (x >>= f) s = f a s' := by
  show Prog.bind x f s = _
  rw [Prog.bind, h]

theorem bind_of_error {e : E} (h : x s = some (.error e, s')) : (x >>= f) s = some (.error e, s') := by
  show Prog.bind x f s = _
  rw [Prog.bind, h]

/-! ## What every run does to the state -/

def Moves (R : S → S → Prop) (x : Prog S E A) : Prop := ∀ s r s', x s = some (r, s') → R s s'

section Moves

variable {R : S → S → Prop}

theorem Moves.bind (htrans : ∀ s t u, R s t → R t u → R s u) (hx : Moves R x)
    (hf : ∀ a, Moves R (f a)) : Moves R (x >>= f) := by
  intro s r s'' h
  change Prog.bind x f s = _ at h
  unfold Prog.bind at h
  split at h
  · rename_i a s' hxs
    exact htrans _ _ _ (hx _ _ _ hxs) (hf a _ _ _ h)
  · rename_i e s' hxs
    cases h
    exact hx _ _ _ hxs
  · cases h

theorem Moves.pure (hrefl : ∀ s, R s s) (a : A) : Moves R (pure a : Prog S E A) := by
  intro s r s' h
  cases h
  exact hrefl s

theorem Moves.fail (hrefl : ∀ s, R s s) (e : E) : Moves R (fail e : Prog S E A) := by
  intro s r s' h
  cases h
  exact hrefl s

theorem Moves.ofOption (hrefl : ∀ s, R s s) (r : Option A) : Moves R (ofOption r : Prog S E A) := by
  intro s r' s' h
  obtain ⟨a, -, ha⟩ := Option.map_eq_some_iff.mp h
  cases ha
  exact hrefl s

end Moves

/-! ## Weakest preconditions -/

def wp (x : Prog S E A) (Q : A → S → Prop) (Z : E → S → Prop) (s : S) : Prop :=
  match x s with
  | some (.ok a, s') => Q a s'
  | some (.error e, s') => Z e s'
  | none => False

section Wp

variable {Q Q' : A → S → Prop} {R : B → S → Prop} {Z Z' : E → S → Prop}

@[simp] theorem wp_bind : wp (x >>= f) R Z s ↔ wp x (fun a s' => wp (f a) R Z s') Z s := by
  show wp (Prog.bind x f) R Z s ↔ _
  unfold wp Prog.bind
  rcases x s with _ | ⟨_ | _, _⟩ <;> rfl

@[simp] theorem wp_pure (a : A) : wp (pure a) Q Z s ↔ Q a s := Iff.rfl

@[simp] theorem wp_fail (e : E) : wp (fail e) Q Z s ↔ Z e s := Iff.rfl

@[simp] theorem wp_gets (g : S → A) : wp (gets g) Q Z s ↔ Q (g s) s := Iff.rfl

@[simp] theorem wp_modify (g : S → S) {Q : Unit → S → Prop} : wp (modify g) Q Z s ↔ Q () (g s) :=
  Iff.rfl

@[simp] theorem wp_ite {c : Prop} [Decidable c] {y : Prog S E A} :
    wp (if c then x else y) Q Z s ↔ (c → wp x Q Z s) ∧ (¬ c → wp y Q Z s) := by
  by_cases hc : c <;> simp [hc]

theorem wp_mono (h : wp x Q Z s) (hQ : ∀ a s', Q a s' → Q' a s') (hZ : ∀ e s', Z e s' → Z' e s') :
    wp x Q' Z' s := by
  unfold wp at *
  split at h
  · exact hQ _ _ h
  · exact hZ _ _ h
  · exact h

theorem wp_seq (h : wp x Q Z s) (hf : ∀ a s', Q a s' → wp (f a) R Z s') : wp (x >>= f) R Z s :=
  wp_bind.mpr (wp_mono h hf fun _ _ hz => hz)

theorem wp_exclusive (h : wp x Q Z s) (h' : wp x Q' Z' s) (hQ : ∀ a s', Q a s' → ¬ Q' a s')
    (hZ : ∀ e s', Z e s' → ¬ Z' e s') : False := by
  unfold wp at h h'
  generalize x s = r at h h'
  rcases r with _ | ⟨_ | _, _⟩
  · exact h
  · exact hZ _ _ h h'
  · exact hQ _ _ h h'

def times (body : Nat → Prog S E Unit) : Nat → Prog S E Unit
  | 0 => pure ()
  | n + 1 => do
    times body n
    body n

theorem wp_times {body : Nat → Prog S E Unit} {n : Nat} (I : Nat → S → Prop)
    (hbody : ∀ i < n, ∀ s, I i s → wp (body i) (fun _ => I (i + 1)) Z s) (h : I 0 s) :
    wp (times body n) (fun _ => I n) Z s := by
  induction n with
  | zero => exact h
  | succ n ih =>
    exact wp_seq (ih fun i hi => hbody i (Nat.lt_succ_of_lt hi)) fun _ s' hs' =>
      hbody n (Nat.lt_succ_self n) s' hs'

end Wp

end Prog

end Doca.Lib
