import Mathlib.Logic.Relation

/-! # Computations on a state that survives failure

`Eff σ ε α` is a computation over a state `σ` which returns an `α` or fails with
an `ε`. What it wrote before failing stays written, as it does when an API call
of a program over a database returns early: only an explicit transaction
(`transact`) discards its writes on failure. The rules below reason about one
run: `Triple` bounds the final state by the outcome, `Moves` bounds it by a
relation to the initial state, whatever the outcome.
-/

namespace Effect

/-- A sequence of results succeeds exactly when both parts do. -/
theorem except_bind_eq_ok {ε α β : Type} {x : Except ε α} {f : α → Except ε β} {b : β} :
    (x >>= f) = .ok b ↔ ∃ a, x = .ok a ∧ f a = .ok b := by
  cases x with
  | error e => simp [bind, Except.bind]
  | ok a => simp [bind, Except.bind]

theorem except_mapError_eq_ok {ε ε' α : Type} {x : Except ε α} {f : ε → ε'} {a : α} :
    x.mapError f = .ok a ↔ x = .ok a := by
  cases x with
  | error e =>
      constructor <;>
      · intro h
        cases h
  | ok b =>
      show Except.ok b = .ok a ↔ _
      rw [Except.ok.injEq, Except.ok.injEq]

/-- An element's result is among those of the list. -/
theorem except_mapM_mem {ε α β : Type} {f : α → Except ε β} {l : List α} {bs : List β}
    (h : l.mapM f = .ok bs) {a : α} (ha : a ∈ l) : ∃ b ∈ bs, f a = .ok b := by
  induction l generalizing bs with
  | nil => exact (List.not_mem_nil ha).elim
  | cons a' as ih =>
      rw [List.mapM_cons] at h
      obtain ⟨b, hb, h⟩ := except_bind_eq_ok.mp h
      obtain ⟨cs, hcs, h⟩ := except_bind_eq_ok.mp h
      cases h
      rcases List.mem_cons.mp ha with rfl | ha
      · exact ⟨b, List.mem_cons_self, hb⟩
      · obtain ⟨c, hc, hf⟩ := ih hcs ha
        exact ⟨c, List.mem_cons_of_mem b hc, hf⟩

/-- A member of the list's results is the result of an element. -/
theorem except_mapM_mem_of_mem {ε α β : Type} {f : α → Except ε β} {l : List α} {bs : List β}
    (h : l.mapM f = .ok bs) {b : β} (hb : b ∈ bs) : ∃ a ∈ l, f a = .ok b := by
  induction l generalizing bs with
  | nil =>
      cases h
      exact (List.not_mem_nil hb).elim
  | cons a as ih =>
      rw [List.mapM_cons] at h
      obtain ⟨c, hc, h⟩ := except_bind_eq_ok.mp h
      obtain ⟨cs, hcs, h⟩ := except_bind_eq_ok.mp h
      cases h
      rcases List.mem_cons.mp hb with rfl | hb
      · exact ⟨a, List.mem_cons_self, hc⟩
      · obtain ⟨a', ha', hf⟩ := ih hcs hb
        exact ⟨a', List.mem_cons_of_mem a ha', hf⟩

/-- A loop succeeds exactly when each of its steps does. -/
theorem except_forM_eq_ok {ε α : Type} {f : α → Except ε Unit} {l : List α} :
    l.forM f = .ok () ↔ ∀ a ∈ l, f a = .ok () := by
  induction l with
  | nil => exact ⟨fun _ _ h => (List.not_mem_nil h).elim, fun _ => rfl⟩
  | cons a as ih =>
      change (f a >>= fun _ => as.forM f) = .ok () ↔ _
      rw [except_bind_eq_ok, List.forall_mem_cons, ← ih]
      exact ⟨fun ⟨_, h, h'⟩ => ⟨h, h'⟩, fun ⟨h, h'⟩ => ⟨(), h, h'⟩⟩

/-- A computation on `σ`: the state it leaves is kept whether it returns or fails. -/
def Eff (σ ε α : Type) : Type := σ → Except ε α × σ

namespace Eff

variable {σ ε α β : Type}

instance : Monad (Eff σ ε) where
  pure a := fun s => (.ok a, s)
  bind x f := fun s =>
    match x s with
    | (.ok a, s') => f a s'
    | (.error e, s') => (.error e, s')

instance : MonadExceptOf ε (Eff σ ε) where
  throw e := fun s => (.error e, s)
  tryCatch x h := fun s =>
    match x s with
    | (.ok a, s') => (.ok a, s')
    | (.error e, s') => h e s'

/-- The current state. -/
def read : Eff σ ε σ := fun s => (.ok s, s)

/-- Replace the state by its image. -/
def modify (f : σ → σ) : Eff σ ε Unit := fun s => (.ok (), f s)

/-- Lift a pure result that may be a failure. -/
def ofExcept (r : Except ε α) : Eff σ ε α := fun s => (r, s)

/-- Run a computation and return its outcome as a value, the state kept. -/
def attempt (x : Eff σ ε α) : Eff σ ε (Except ε α) := fun s => (.ok (x s).1, (x s).2)

/-- Apply a pure update that may fail; a failure leaves the state as it was. -/
def transact (f : σ → Except ε (α × σ)) : Eff σ ε α := fun s =>
  match f s with
  | .ok (a, s') => (.ok a, s')
  | .error e => (.error e, s)

/-- Run a computation for each element in order, stopping at the first failure. -/
def forEach : List α → (α → Eff σ ε Unit) → Eff σ ε Unit
  | [], _ => pure ()
  | a :: as, f => do f a; forEach as f

/-- Fail when a condition holds. -/
def throwIf (c : Prop) [Decidable c] (e : ε) : Eff σ ε Unit := if c then throw e else pure ()

/-- Run only when a condition holds. -/
def runIf (c : Prop) [Decidable c] (x : Eff σ ε Unit) : Eff σ ε Unit := if c then x else pure ()

@[simp] theorem run_pure (a : α) (s : σ) : (pure a : Eff σ ε α) s = (.ok a, s) := rfl

@[simp] theorem run_throw (e : ε) (s : σ) : (throw e : Eff σ ε α) s = (.error e, s) := rfl

@[simp] theorem run_read (s : σ) : (read : Eff σ ε σ) s = (.ok s, s) := rfl

@[simp] theorem run_modify (f : σ → σ) (s : σ) : (modify f : Eff σ ε Unit) s = (.ok (), f s) := rfl

@[simp] theorem run_ofExcept (r : Except ε α) (s : σ) : (ofExcept r : Eff σ ε α) s = (r, s) := rfl

@[simp] theorem run_attempt (x : Eff σ ε α) (s : σ) :
    attempt x s = (.ok (x s).1, (x s).2) := rfl

theorem run_bind (x : Eff σ ε α) (f : α → Eff σ ε β) (s : σ) :
    (x >>= f) s =
      match x s with
      | (.ok a, s') => f a s'
      | (.error e, s') => (.error e, s') := rfl

theorem run_map (f : α → β) (x : Eff σ ε α) (s : σ) :
    (f <$> x) s =
      match x s with
      | (.ok a, s') => (.ok (f a), s')
      | (.error e, s') => (.error e, s') := rfl

theorem run_bind_ok {x : Eff σ ε α} {f : α → Eff σ ε β} {s s' : σ} {a : α}
    (h : x s = (.ok a, s')) : (x >>= f) s = f a s' := by
  rw [run_bind, h]

theorem run_bind_error {x : Eff σ ε α} {f : α → Eff σ ε β} {s s' : σ} {e : ε}
    (h : x s = (.error e, s')) : (x >>= f) s = (.error e, s') := by
  rw [run_bind, h]

/-- A sequence returns if its second part does from where the first ends. -/
theorem exists_run_bind_ok {x : Eff σ ε α} {f : α → Eff σ ε β} {s m : σ} {a : α}
    (h : x s = (.ok a, m)) (hf : ∃ b s', f a m = (.ok b, s')) :
    ∃ b s', (x >>= f) s = (.ok b, s') := by
  rw [run_bind_ok h]
  exact hf

private theorem id_map_eq (x : Eff σ ε α) : id <$> x = x := by
  funext s
  change (match x s with
    | (.ok a, s') => (.ok a, s')
    | (.error e, s') => (.error e, s')) = x s
  cases x s with
  | mk r m => cases r <;> rfl

private theorem bind_assoc_eq {γ : Type} (x : Eff σ ε α) (f : α → Eff σ ε β)
    (g : β → Eff σ ε γ) : x >>= f >>= g = x >>= fun a => f a >>= g := by
  funext s
  simp only [run_bind]
  cases x s with
  | mk r m => cases r <;> rfl

instance : LawfulMonad (Eff σ ε) :=
  LawfulMonad.mk' (Eff σ ε) id_map_eq (fun _ _ => rfl) bind_assoc_eq

/-- A sequence returns exactly when both parts do. -/
theorem bind_eq_ok {x : Eff σ ε α} {f : α → Eff σ ε β} {s s' : σ} {b : β} :
    (x >>= f) s = (.ok b, s') ↔ ∃ a m, x s = (.ok a, m) ∧ f a m = (.ok b, s') := by
  rw [run_bind]
  cases hx : x s with
  | mk r m =>
      cases r with
      | ok a =>
          constructor
          · intro h
            exact ⟨a, m, rfl, h⟩
          · rintro ⟨_, _, h, hf⟩
            cases h
            exact hf
      | error e => simp

theorem transact_eq_ok {f : σ → Except ε (α × σ)} {s s' : σ} {a : α} :
    transact f s = (.ok a, s') ↔ f s = .ok (a, s') := by
  unfold transact
  cases hf : f s with
  | ok p => cases p; simp
  | error e => simp

theorem ofExcept_eq_ok {r : Except ε α} {s s' : σ} {a : α} :
    ofExcept r s = (.ok a, s') ↔ r = .ok a ∧ s' = s := by
  rw [run_ofExcept, Prod.mk.injEq, eq_comm (a := s)]

/-- A sequence fails in its first part, or in the second from where the first ends. -/
theorem bind_eq_error {x : Eff σ ε α} {f : α → Eff σ ε β} {s s' : σ} {e : ε} :
    (x >>= f) s = (.error e, s') ↔
      x s = (.error e, s') ∨ ∃ a m, x s = (.ok a, m) ∧ f a m = (.error e, s') := by
  rw [run_bind]
  cases hx : x s with
  | mk r m =>
      cases r with
      | ok a =>
          constructor
          · intro h
            exact .inr ⟨a, m, rfl, h⟩
          · rintro (h | ⟨_, _, h, hf⟩)
            · cases h
            · cases h
              exact hf
      | error e' => simp

theorem ofExcept_eq_error {r : Except ε α} {s s' : σ} {e : ε} :
    ofExcept r s = (.error e, s') ↔ r = .error e ∧ s' = s := by
  rw [run_ofExcept, Prod.mk.injEq, eq_comm (a := s)]

/-- The failure of a sequence whose first part is a pure result. -/
theorem ofExcept_bind_eq_error {r : Except ε α} {f : α → Eff σ ε β} {s s' : σ} {e : ε} :
    (ofExcept r >>= f) s = (.error e, s') ↔
      r = .error e ∧ s' = s ∨ ∃ a, r = .ok a ∧ f a s = (.error e, s') := by
  rw [bind_eq_error, ofExcept_eq_error]
  refine or_congr Iff.rfl ⟨?_, ?_⟩
  · rintro ⟨a, m, ha, hf⟩
    obtain ⟨hr, rfl⟩ := ofExcept_eq_ok.mp ha
    exact ⟨a, hr, hf⟩
  · rintro ⟨a, hr, hf⟩
    exact ⟨a, s, ofExcept_eq_ok.mpr ⟨hr, rfl⟩, hf⟩

theorem read_bind_eq_error {f : σ → Eff σ ε β} {s s' : σ} {e : ε} :
    ((read : Eff σ ε σ) >>= f) s = (.error e, s') ↔ f s s = (.error e, s') := Iff.rfl

theorem transact_eq_error {f : σ → Except ε (α × σ)} {s s' : σ} {e : ε} :
    transact f s = (.error e, s') ↔ f s = .error e ∧ s' = s := by
  unfold transact
  cases hf : f s with
  | ok p => cases p; simp
  | error e' => simp [eq_comm]

theorem read_eq_ok {s s' t : σ} : (read : Eff σ ε σ) s = (.ok t, s') ↔ t = s ∧ s' = s := by
  rw [run_read, Prod.mk.injEq, Except.ok.injEq, eq_comm (a := s), eq_comm (a := s)]

theorem throwIf_eq_ok {c : Prop} [Decidable c] {e : ε} {s s' : σ} {u : Unit} :
    throwIf c e s = (.ok u, s') ↔ ¬ c ∧ s' = s := by
  unfold throwIf
  by_cases hc : c
  · simp [hc]
  · simp [hc, eq_comm]

/-! ## Bounding the returned value -/

/-- Whatever the state, a value returned satisfies `Q`. -/
def Yields (x : Eff σ ε α) (Q : α → Prop) : Prop := ∀ s a s', x s = (.ok a, s') → Q a

section Yields

variable {x : Eff σ ε α} {Q : α → Prop}

theorem Yields.pure {a : α} (h : Q a) : Yields (Pure.pure a : Eff σ ε α) Q := by
  intro s b s' hb
  cases hb
  exact h

theorem Yields.throw (e : ε) : Yields (throw e : Eff σ ε α) Q := by
  intro s a s' ha
  cases ha

theorem Yields.throw_bind (e : ε) (f : β → Eff σ ε α) :
    Yields ((MonadExcept.throw e : Eff σ ε β) >>= f) Q := by
  intro s a s' ha
  cases ha

theorem Yields.ofExcept {r : Except ε α} (h : ∀ a, r = .ok a → Q a) :
    Yields (ofExcept r : Eff σ ε α) Q := by
  intro s a s' ha
  cases ha
  exact h a rfl

/-- A sequence yields what its second part does, given what the first does. -/
theorem Yields.bind {P : α → Prop} {f : α → Eff σ ε β} {R : β → Prop} (hx : Yields x P)
    (hf : ∀ a, P a → Yields (f a) R) : Yields (x >>= f) R := by
  intro s b s' h
  obtain ⟨a, m, ha, hb⟩ := bind_eq_ok.mp h
  exact hf a (hx s a m ha) m b s' hb

theorem Yields.bind_of_forall {f : α → Eff σ ε β} {R : β → Prop} (hf : ∀ a, Yields (f a) R) :
    Yields (x >>= f) R := by
  intro s b s' h
  obtain ⟨a, m, -, hb⟩ := bind_eq_ok.mp h
  exact hf a m b s' hb

theorem Yields.ite {c : Prop} [Decidable c] {y : Eff σ ε α} (hx : c → Yields x Q)
    (hy : ¬ c → Yields y Q) : Yields (if c then x else y) Q := by
  by_cases h : c
  · rw [if_pos h]; exact hx h
  · rw [if_neg h]; exact hy h

end Yields

/-! ## Kinds of failure -/

/-- The run ends with an error of a kind. -/
def FailsWith (P : ε → Prop) (x : Eff σ ε α) (s : σ) : Prop := ∃ e, (x s).1 = .error e ∧ P e

section FailsWith

variable {P : ε → Prop} {x : Eff σ ε α} {s : σ}

theorem not_failsWith_of_ok {a : α} {s' : σ} (h : x s = (.ok a, s')) : ¬ FailsWith P x s := by
  rintro ⟨e, he, -⟩
  rw [h] at he
  cases he

theorem failsWith_of_error {e : ε} {s' : σ} (h : x s = (.error e, s')) :
    FailsWith P x s ↔ P e := by
  constructor
  · rintro ⟨e', he, hp⟩
    rw [h] at he
    cases he
    exact hp
  · intro hp
    exact ⟨e, by rw [h], hp⟩

theorem not_failsWith_pure (a : α) : ¬ FailsWith P (pure a : Eff σ ε α) s :=
  not_failsWith_of_ok rfl

theorem failsWith_throw {e : ε} : FailsWith P (throw e : Eff σ ε α) s ↔ P e :=
  failsWith_of_error rfl

/-- A sequence fails in a way when its first part does, or its second from where
the first ends. -/
theorem failsWith_bind {f : α → Eff σ ε β} :
    FailsWith P (x >>= f) s ↔
      FailsWith P x s ∨ ∃ a s', x s = (.ok a, s') ∧ FailsWith P (f a) s' := by
  cases hx : x s with
  | mk r m =>
      cases r with
      | error e =>
          rw [failsWith_of_error (run_bind_error hx), failsWith_of_error hx]
          simp
      | ok a =>
          have hrun : (x >>= f) s = f a m := run_bind_ok hx
          have hsame : FailsWith P (x >>= f) s ↔ FailsWith P (f a) m := by
            unfold FailsWith
            rw [hrun]
          rw [hsame, or_iff_right (not_failsWith_of_ok hx)]
          constructor
          · intro hf
            exact ⟨a, m, rfl, hf⟩
          · rintro ⟨_, _, h, hf⟩
            cases h
            exact hf

/-- A first part that does not fail so is left out. -/
theorem failsWith_bind_of_not {f : α → Eff σ ε β} (h : ¬ FailsWith P x s) :
    FailsWith P (x >>= f) s ↔ ∃ a s', x s = (.ok a, s') ∧ FailsWith P (f a) s' := by
  rw [failsWith_bind, or_iff_right h]

/-- A second part that never fails so is left out. -/
theorem failsWith_bind_of_forall_not {f : α → Eff σ ε β} (h : ∀ a s', ¬ FailsWith P (f a) s') :
    FailsWith P (x >>= f) s ↔ FailsWith P x s := by
  rw [failsWith_bind]
  exact or_iff_left fun ⟨a, s', _, hf⟩ => h a s' hf

theorem not_failsWith_bind {f : α → Eff σ ε β} (hx : ∀ s, ¬ FailsWith P x s)
    (hf : ∀ a s', ¬ FailsWith P (f a) s') (s : σ) : ¬ FailsWith P (x >>= f) s := by
  rw [failsWith_bind_of_forall_not hf]
  exact hx s

end FailsWith

/-! ## Bounding the outcome -/

/-- From a state satisfying `P`, a return satisfies `Q` and a failure satisfies `R`. -/
def Triple (P : σ → Prop) (x : Eff σ ε α) (Q : α → σ → Prop) (R : σ → Prop) : Prop :=
  ∀ s, P s →
    match x s with
    | (.ok a, s') => Q a s'
    | (.error _, s') => R s'

section Triple

variable {P P' : σ → Prop} {x : Eff σ ε α} {Q Q' : α → σ → Prop} {R R' : σ → Prop}

theorem Triple.ok (h : Triple P x Q R) {s s' : σ} {a : α} (hs : P s)
    (hx : x s = (.ok a, s')) : Q a s' := by
  simpa [hx] using h s hs

theorem Triple.error (h : Triple P x Q R) {s s' : σ} {e : ε} (hs : P s)
    (hx : x s = (.error e, s')) : R s' := by
  simpa [hx] using h s hs

/-- A property of the final state, whatever the outcome. -/
theorem Triple.final {I : σ → Prop} (h : Triple P x (fun _ => I) I) {s : σ} (hs : P s) :
    I (x s).2 := by
  have h := h s hs
  cases hr : x s with
  | mk r m => cases r <;> simpa [hr] using h

theorem Triple.pure {a : α} (h : ∀ s, P s → Q a s) :
    Triple P (Pure.pure a : Eff σ ε α) Q R := fun s hs => h s hs

theorem Triple.throw {e : ε} (h : ∀ s, P s → R s) :
    Triple P (throw e : Eff σ ε α) Q R := fun s hs => h s hs

theorem Triple.bind {f : α → Eff σ ε β} {S : β → σ → Prop} (hx : Triple P x Q R)
    (hf : ∀ a, Triple (Q a) (f a) S R) : Triple P (x >>= f) S R := by
  intro s hs
  have h := hx s hs
  rw [run_bind]
  cases hr : x s with
  | mk r m =>
      cases r with
      | ok a => simp only [hr] at h ⊢; exact hf a m h
      | error e => simpa only [hr] using h

theorem Triple.consequence (h : Triple P x Q R) (hP : ∀ s, P' s → P s)
    (hQ : ∀ a s, Q a s → Q' a s) (hR : ∀ s, R s → R' s) : Triple P' x Q' R' := by
  intro s hs
  have h := h s (hP s hs)
  cases hr : x s with
  | mk r m =>
      cases r with
      | ok a => simp only [hr] at h ⊢; exact hQ a m h
      | error e => simp only [hr] at h ⊢; exact hR m h

theorem Triple.read {Q : σ → σ → Prop} (h : ∀ s, P s → Q s s) :
    Triple P (read : Eff σ ε σ) Q R := fun s hs => h s hs

theorem Triple.modify {f : σ → σ} {Q : Unit → σ → Prop} (h : ∀ s, P s → Q () (f s)) :
    Triple P (modify f : Eff σ ε Unit) Q R := fun s hs => h s hs

theorem Triple.ofExcept {r : Except ε α} (hok : ∀ a s, r = .ok a → P s → Q a s)
    (herr : ∀ s, P s → R s) : Triple P (ofExcept r : Eff σ ε α) Q R := by
  intro s hs
  cases hr : r with
  | ok a => simpa [hr] using hok a s hr hs
  | error e => simpa [hr] using herr s hs

theorem Triple.transact {f : σ → Except ε (α × σ)}
    (hok : ∀ s a s', P s → f s = .ok (a, s') → Q a s') (herr : ∀ s, P s → R s) :
    Triple P (transact f) Q R := by
  intro s hs
  unfold Eff.transact
  cases hf : f s with
  | ok p => exact hok s p.1 p.2 hs hf
  | error e => exact herr s hs

theorem Triple.attempt (h : Triple P x Q R) :
    Triple P (attempt x) (fun r s => match r with | .ok a => Q a s | .error _ => R s) R := by
  intro s hs
  have h := h s hs
  cases hr : x s with
  | mk r m =>
      cases r with
      | ok a => simpa [hr] using h
      | error e => simpa [hr] using h

theorem Triple.ite {c : Prop} [Decidable c] {y : Eff σ ε α}
    (hx : c → Triple P x Q R) (hy : ¬ c → Triple P y Q R) :
    Triple P (if c then x else y) Q R := by
  by_cases h : c
  · rw [if_pos h]; exact hx h
  · rw [if_neg h]; exact hy h

theorem Triple.throwIf {c : Prop} [Decidable c] {e : ε} (hP : ∀ s, P s → R s) :
    Triple P (throwIf c e : Eff σ ε Unit) (fun _ s => P s ∧ ¬ c) R := by
  intro s hs
  unfold Eff.throwIf
  by_cases h : c
  · rw [if_pos h]; exact hP s hs
  · rw [if_neg h]; exact ⟨hs, h⟩

/-- Reading the state gives a state of the precondition. -/
theorem Triple.read_bind {f : σ → Eff σ ε β} {S : β → σ → Prop}
    (h : ∀ s, P s → Triple P (f s) S R) : Triple P ((Eff.read : Eff σ ε σ) >>= f) S R :=
  fun s hs => h s hs s hs

/-- A computation returns what its run from the state returns. -/
theorem Triple.run (x : Eff σ ε α) (w : σ) :
    Triple (fun s => s = w) x (fun a s => x w = (.ok a, s)) (fun _ => True) := by
  intro s hs
  subst hs
  cases hx : x s with
  | mk r m => cases r <;> simp

theorem Triple.of_run {w w' : σ} {a : α} (h : x w = (.ok a, w')) :
    Triple (fun s => s = w) x (fun b s => b = a ∧ s = w') R := by
  intro s hs
  subst hs
  rw [h]
  exact ⟨rfl, rfl⟩

/-- What never fails returns. -/
theorem Triple.returns (h : Triple P x Q fun _ => False) {s : σ} (hs : P s) :
    ∃ a s', x s = (.ok a, s') ∧ Q a s' := by
  have hrun := h s hs
  cases hx : x s with
  | mk r m =>
      rw [hx] at hrun
      cases r with
      | ok a => exact ⟨a, m, rfl, hrun⟩
      | error e => exact hrun.elim

/-- What follows a read starts in the state that was read. -/
theorem Triple.read_bind_self {f : σ → Eff σ ε β} {S : β → σ → Prop}
    (h : ∀ s, P s → Triple (fun t => t = s) (f s) S R) :
    Triple P ((Eff.read : Eff σ ε σ) >>= f) S R :=
  fun s hs => h s hs s rfl

/-- A part of the precondition that does not speak of the state is an assumption. -/
theorem Triple.and_left {c : Prop} (h : c → Triple P x Q R) :
    Triple (fun s => c ∧ P s) x Q R :=
  fun s hs => h hs.1 s hs.2

/-- A precondition that does not speak of the state is an assumption. -/
theorem Triple.of_assumption {c : Prop}
    (h : c → Triple (fun _ => True) x Q R) : Triple (fun _ => c) x Q R :=
  fun s hc => h hc s trivial

/-- What a computation yields is a postcondition of it. -/
theorem Triple.of_yields {S : α → Prop} (h : Yields x S) :
    Triple (fun _ => True) x (fun a _ => S a) (fun _ => True) := by
  intro s _
  cases hr : x s with
  | mk r m =>
      cases r with
      | ok a => exact h s a m hr
      | error e => trivial

/-- A sequence whose second part needs nothing of the first. -/
theorem Triple.bind_of_forall {f : α → Eff σ ε β} {S : β → σ → Prop}
    (hf : ∀ a, Triple (fun _ => True) (f a) S (fun _ => True)) :
    Triple (fun _ => True) (x >>= f) S (fun _ => True) :=
  Triple.bind (fun s _ => by cases hr : x s with | mk r m => cases r <;> trivial) hf

/-- A loop keeps an invariant its body keeps. -/
theorem Triple.forEach {I : σ → Prop} {xs : List α} {f : α → Eff σ ε Unit}
    (h : ∀ a ∈ xs, Triple I (f a) (fun _ => I) R) :
    Triple I (forEach xs f) (fun _ => I) R := by
  induction xs with
  | nil => exact Triple.pure fun _ hs => hs
  | cons a as ih =>
      exact (h a List.mem_cons_self).bind fun _ =>
        ih fun b hb => h b (List.mem_cons_of_mem a hb)

end Triple

/-! ## Bounding the move -/

/-- An invariant of the first state is one of the second. -/
def Keeps (I : σ → Prop) (s s' : σ) : Prop := I s → I s'

instance (I : σ → Prop) : Std.Refl (Keeps I) := ⟨fun _ h => h⟩

instance (I : σ → Prop) : IsTrans σ (Keeps I) := ⟨fun _ _ _ h h' hs => h' (h hs)⟩

/-- Whatever the outcome, the final state is related to the initial one. -/
def Moves (R : σ → σ → Prop) (x : Eff σ ε α) : Prop := ∀ s, R s (x s).2

section Moves

variable {R S : σ → σ → Prop} {x : Eff σ ε α}

theorem Moves.of_run (h : Moves R x) {s s' : σ} {r : Except ε α} (hx : x s = (r, s')) :
    R s s' := by
  have hs := h s
  rwa [hx] at hs

theorem Moves.keepsTriple {I : σ → Prop} (h : Moves (Keeps I) x) :
    Triple I x (fun _ => I) I := by
  intro s hs
  have hm : I (x s).2 := h s hs
  cases hr : x s with
  | mk r m => cases r <;> simpa [hr] using hm

theorem Moves.mono (h : Moves R x) (hRS : ∀ s s', R s s' → S s s') : Moves S x :=
  fun s => hRS s _ (h s)

theorem Moves.toTriple [IsTrans σ R] (h : Moves R x) (s₀ : σ) :
    Triple (R s₀) x (fun _ => R s₀) (R s₀) := by
  intro s hs
  have hm : R s₀ (x s).2 := IsTrans.trans s₀ s _ hs (h s)
  cases hr : x s with
  | mk r m => cases r <;> simpa [hr] using hm

theorem Moves.of_triple (h : ∀ s, Triple (fun t => t = s) x (fun _ => R s) (R s)) :
    Moves R x := by
  intro s
  have h := h s s rfl
  cases hr : x s with
  | mk r m => cases r <;> simpa [hr] using h

theorem Moves.modify {f : σ → σ} (h : ∀ s, R s (f s)) :
    Moves R (modify f : Eff σ ε Unit) := h

theorem Moves.attempt (h : Moves R x) : Moves R (attempt x) := h

theorem Moves.ite {c : Prop} [Decidable c] {y : Eff σ ε α}
    (hx : c → Moves R x) (hy : ¬ c → Moves R y) : Moves R (if c then x else y) := by
  by_cases h : c
  · rw [if_pos h]; exact hx h
  · rw [if_neg h]; exact hy h

theorem Moves.bind_of_yields [IsTrans σ R] {f : α → Eff σ ε β} {Q : α → Prop} (hx : Moves R x)
    (hq : Yields x Q) (hf : ∀ a, Q a → Moves R (f a)) : Moves R (x >>= f) := by
  intro s
  have h := hx s
  rw [run_bind]
  cases hr : x s with
  | mk r m =>
      simp only [hr] at h
      cases r with
      | ok a => exact IsTrans.trans s m _ h (hf a (hq s a m hr) m)
      | error e => exact h

theorem Moves.bind [IsTrans σ R] {f : α → Eff σ ε β} (hx : Moves R x) (hf : ∀ a, Moves R (f a)) :
    Moves R (x >>= f) :=
  hx.bind_of_yields (Q := fun _ => True) (fun _ _ _ _ => trivial) fun a _ => hf a

variable [Std.Refl R]

theorem Moves.pure (a : α) : Moves R (Pure.pure a : Eff σ ε α) := fun s => Std.Refl.refl s

theorem Moves.throw (e : ε) : Moves R (throw e : Eff σ ε α) := fun s => Std.Refl.refl s

theorem Moves.throw_bind (e : ε) (f : β → Eff σ ε α) :
    Moves R ((MonadExcept.throw e : Eff σ ε β) >>= f) := fun s => Std.Refl.refl s

theorem Moves.read : Moves R (read : Eff σ ε σ) := fun s => Std.Refl.refl s

theorem Moves.ofExcept (r : Except ε α) : Moves R (ofExcept r : Eff σ ε α) :=
  fun s => Std.Refl.refl s

theorem Moves.transact {f : σ → Except ε (α × σ)}
    (h : ∀ s a s', f s = .ok (a, s') → R s s') : Moves R (transact f) := by
  intro s
  unfold Eff.transact
  cases hf : f s with
  | ok p => exact h s p.1 p.2 hf
  | error e => exact Std.Refl.refl s

theorem Moves.throwIf {c : Prop} [Decidable c] (e : ε) : Moves R (throwIf c e : Eff σ ε Unit) :=
  Moves.ite (fun _ => Moves.throw e) fun _ => Moves.pure ()

theorem Moves.runIf {c : Prop} [Decidable c] {x : Eff σ ε Unit} (h : Moves R x) :
    Moves R (runIf c x) :=
  Moves.ite (fun _ => h) fun _ => Moves.pure ()

variable [IsTrans σ R]

theorem Moves.forEach {xs : List α} {f : α → Eff σ ε Unit}
    (h : ∀ a ∈ xs, Moves R (f a)) : Moves R (forEach xs f) := by
  induction xs with
  | nil => exact Moves.pure ()
  | cons a as ih =>
      exact (h a List.mem_cons_self).bind fun _ =>
        ih fun b hb => h b (List.mem_cons_of_mem a hb)

end Moves

end Eff

end Effect
