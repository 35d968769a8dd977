import GrinWallet.Lib.Effect

/-! # Threads made of atomic sections

A program that takes a lock several times is a `Thread`: a sequence of labelled
sections, each an atomic computation on the shared state, with the values a
section returns carried to the next one as the thread's own locals. A thread can
be run alone to its end (`run`), for a number of sections (`runFor`), or in a
pool where any thread may take the next section, start, or stop for good between
two of its sections. `Alone` is the Hoare argument for a thread run alone, and
`sequential_invariant` makes it an invariant of threads run one after another;
`Along` is the same for a thread that may stop anywhere, with a count of what it did;
`Safe` is the rely-guarantee argument for one thread among others, and
`reachable_safe` makes it an invariant of every interleaving of the pool.
-/

namespace Sections

open Effect

/-- A thread that holds the lock for one labelled section after another. -/
inductive Thread (L σ ε α : Type) : Type 1
  | ret (r : Except ε α) : Thread L σ ε α
  | sec {β : Type} (label : L) (body : Eff σ ε β) (next : β → Thread L σ ε α) : Thread L σ ε α

namespace Thread

variable {L σ ε α β : Type}

/-- Continue with a second thread; a failure ends the whole. -/
def andThen : Thread L σ ε α → (α → Thread L σ ε β) → Thread L σ ε β
  | ret (.ok a), f => f a
  | ret (.error e), _ => ret (.error e)
  | sec label body next, f => sec label body fun b => (next b).andThen f

instance : Monad (Thread L σ ε) where
  pure a := ret (.ok a)
  bind := andThen

/-- One section. -/
def atomic (label : L) (body : Eff σ ε α) : Thread L σ ε α := sec label body fun a => ret (.ok a)

/-- End the thread with an outcome. -/
def ofExcept (r : Except ε α) : Thread L σ ε α := ret r

/-- Run a thread only when a condition holds. -/
def runIf (c : Prop) [Decidable c] (t : Thread L σ ε Unit) : Thread L σ ε Unit :=
  if c then t else ret (.ok ())

/-- Run a thread for each element in order, stopping at the first failure. -/
def forEach {ι : Type} : List ι → (ι → Thread L σ ε Unit) → Thread L σ ε Unit
  | [], _ => ret (.ok ())
  | i :: is, f => (f i).andThen fun _ => forEach is f

/-- Run alone to the end. -/
def run : Thread L σ ε α → Eff σ ε α
  | ret r => Eff.ofExcept r
  | sec _ body next => body >>= fun b => (next b).run

/-- Take one section. -/
def step : Thread L σ ε α → σ → Thread L σ ε α × σ
  | ret r, s => (ret r, s)
  | sec _ body next, s =>
      match body s with
      | (.ok b, s') => (next b, s')
      | (.error e, s') => (ret (.error e), s')

/-- Take at most `n` sections. -/
def runFor : Nat → Thread L σ ε α → σ → Thread L σ ε α × σ
  | 0, t, s => (t, s)
  | n + 1, t, s => runFor n (t.step s).1 (t.step s).2

@[simp] theorem pure_eq (a : α) : (pure a : Thread L σ ε α) = ret (.ok a) := rfl

@[simp] theorem bind_eq (t : Thread L σ ε α) (f : α → Thread L σ ε β) :
    (t >>= f) = t.andThen f := rfl

@[simp] theorem run_ret (r : Except ε α) : (ret r : Thread L σ ε α).run = Eff.ofExcept r := rfl

theorem run_andThen (t : Thread L σ ε α) (f : α → Thread L σ ε β) :
    (t.andThen f).run = t.run >>= fun a => (f a).run := by
  funext s
  induction t generalizing s with
  | ret r => cases r <;> rfl
  | sec label body next ih =>
      simp only [andThen, run, Eff.run_bind]
      cases hb : body s with
      | mk r s' =>
          cases r with
          | ok b => exact ih b s'
          | error e => rfl

theorem andThen_assoc {γ : Type} (t : Thread L σ ε α) (f : α → Thread L σ ε β)
    (g : β → Thread L σ ε γ) : (t.andThen f).andThen g = t.andThen fun a => (f a).andThen g := by
  induction t with
  | ret r => cases r <;> rfl
  | sec label body next ih => simp only [andThen, ih]

theorem andThen_ret (t : Thread L σ ε α) : (t.andThen fun a => ret (.ok a)) = t := by
  induction t with
  | ret r => cases r <;> rfl
  | sec label body next ih => simp only [andThen, ih]

theorem run_atomic (label : L) (body : Eff σ ε α) :
    (atomic label body : Thread L σ ε α).run = body := by
  funext s
  simp only [atomic, run, Eff.run_bind]
  cases hb : body s with
  | mk r s' => cases r <;> rfl

/-! ## What a thread is made of -/

/-- Every section of a thread is one of `S`, whatever the sections before it returned. -/
def MadeOf (S : (β : Type) → L → Eff σ ε β → Prop) : Thread L σ ε α → Prop
  | ret _ => True
  | sec (β := β) label body next => S β label body ∧ ∀ b, (next b).MadeOf S

section MadeOf

variable {S : (β : Type) → L → Eff σ ε β → Prop} {I : σ → Prop}

theorem MadeOf.andThen {t : Thread L σ ε α} {f : α → Thread L σ ε β} (ht : t.MadeOf S)
    (hf : ∀ a, (f a).MadeOf S) : (t.andThen f).MadeOf S := by
  induction t with
  | ret r =>
      cases r with
      | ok a => exact hf a
      | error e => trivial
  | sec label body next ih => exact ⟨ht.1, fun b => ih b (ht.2 b)⟩

theorem MadeOf.atomic {label : L} {body : Eff σ ε α} (h : S α label body) :
    (atomic label body).MadeOf S :=
  ⟨h, fun _ => trivial⟩

theorem MadeOf.forEach {ι : Type} {is : List ι} {f : ι → Thread L σ ε Unit}
    (h : ∀ i ∈ is, (f i).MadeOf S) : (forEach is f).MadeOf S := by
  induction is with
  | nil => trivial
  | cons i is ih =>
      exact (h i List.mem_cons_self).andThen fun _ => ih fun j hj => h j (List.mem_cons_of_mem i hj)

/-- A thread run alone keeps what its sections keep. -/
theorem MadeOf.run {t : Thread L σ ε α} (ht : t.MadeOf S)
    (hS : ∀ β label (body : Eff σ ε β) s, S β label body → I s → I (body s).2) {s : σ} (hs : I s) :
    I (t.run s).2 := by
  induction t generalizing s with
  | ret r => exact hs
  | sec label body next ih =>
      have hbody := hS _ label body s ht.1 hs
      rw [Thread.run, Eff.run_bind]
      cases hb : body s with
      | mk r s' =>
          rw [hb] at hbody
          cases r with
          | ok b => exact ih b (ht.2 b) hbody
          | error e => exact hbody

end MadeOf

/-! ## What a thread returns -/

/-- Whatever the sections returned, a value the thread returns satisfies `Q`. -/
def Returns (Q : α → Prop) : Thread L σ ε α → Prop
  | ret (.ok a) => Q a
  | ret (.error _) => True
  | sec _ _ next => ∀ b, (next b).Returns Q

/-- What the second thread returns whatever it continues from. -/
theorem Returns.andThen {Q : β → Prop} {t : Thread L σ ε α} {f : α → Thread L σ ε β}
    (hf : ∀ a, (f a).Returns Q) : (t.andThen f).Returns Q := by
  induction t with
  | ret r =>
      cases r with
      | ok a => exact hf a
      | error e => trivial
  | sec label body next ih => exact fun b => ih b

theorem returns_of_forall {Q : α → Prop} (h : ∀ a, Q a) (t : Thread L σ ε α) : t.Returns Q := by
  induction t with
  | ret r =>
      cases r with
      | ok a => exact h a
      | error e => trivial
  | sec label body next ih => exact fun b => ih b

theorem Returns.run {Q : α → Prop} {t : Thread L σ ε α} (ht : t.Returns Q) {s s' : σ} {a : α}
    (h : t.run s = (.ok a, s')) : Q a := by
  induction t generalizing s with
  | ret r =>
      obtain ⟨rfl, -⟩ := Eff.ofExcept_eq_ok.mp h
      exact ht
  | sec label body next ih =>
      obtain ⟨b, m, -, hnext⟩ := Eff.bind_eq_ok.mp h
      exact ih b (ht b) hnext

/-! ## One thread alone -/

/-- Run alone from `s`, every section is allowed where it is taken. -/
def AllowedRun (allowed : L → σ → Prop) : Thread L σ ε α → σ → Prop
  | ret _, _ => True
  | sec label body next, s =>
      allowed label s ∧ ∀ b, (body s).1 = .ok b → AllowedRun allowed (next b) (body s).2

instance decidableAllowedRun (allowed : L → σ → Prop) [∀ label s, Decidable (allowed label s)] :
    (t : Thread L σ ε α) → (s : σ) → Decidable (t.AllowedRun allowed s)
  | ret _, _ => isTrue trivial
  | sec label body next, s =>
      have hnext : Decidable (∀ b, (body s).1 = .ok b → AllowedRun allowed (next b) (body s).2) :=
        match h : (body s).1 with
        | .ok b =>
            have := decidableAllowedRun allowed (next b) (body s).2
            decidable_of_iff (AllowedRun allowed (next b) (body s).2)
              ⟨fun hb b' heq => by cases heq; exact hb, fun hall => hall b rfl⟩
        | .error _ => isTrue fun b heq => nomatch heq
      show Decidable (allowed label s ∧ _) from inferInstance

theorem allowedRun_of_forall {allowed : L → σ → Prop} (h : ∀ label s, allowed label s)
    (t : Thread L σ ε α) (s : σ) : t.AllowedRun allowed s := by
  induction t generalizing s with
  | ret r => trivial
  | sec label body next ih => exact ⟨h label s, fun b _ => ih b _⟩

/-- Run alone from `s` through allowed sections, a return satisfies `Q` and a failure `R`. -/
def Alone (allowed : L → σ → Prop) (Q : α → σ → Prop) (R : σ → Prop) :
    Thread L σ ε α → σ → Prop
  | ret (.ok a), s => Q a s
  | ret (.error _), s => R s
  | sec label body next, s => allowed label s →
      (∀ b, (body s).1 = .ok b → Alone allowed Q R (next b) (body s).2) ∧
        ∀ e, (body s).1 = .error e → R (body s).2

section Alone

variable {allowed : L → σ → Prop} {Q : α → σ → Prop} {R : σ → Prop}

theorem Alone.andThen {P : β → σ → Prop} {f : α → Thread L σ ε β} {t : Thread L σ ε α} {s : σ}
    (h : Alone allowed Q R t s) (hf : ∀ a s, Q a s → Alone allowed P R (f a) s) :
    Alone allowed P R (t.andThen f) s := by
  induction t generalizing s with
  | ret r =>
      cases r with
      | ok a => exact hf a s h
      | error e => exact h
  | sec label body next ih =>
      intro hallow
      obtain ⟨hok, herror⟩ := h hallow
      exact ⟨fun b hb => ih b (hok b hb), herror⟩

/-- A section alone does what its body does. -/
theorem Alone.atomic {label : L} {body : Eff σ ε α} {P : σ → Prop} {s : σ}
    (h : allowed label s → Eff.Triple P body Q R) (hs : P s) :
    Alone allowed Q R (atomic label body) s := by
  intro hallow
  have hbody := h hallow s hs
  cases hb : body s with
  | mk r s' =>
      rw [hb] at hbody
      cases r with
      | ok a =>
          refine ⟨fun b heq => ?_, fun e heq => nomatch heq⟩
          cases heq
          exact hbody
      | error e => exact ⟨fun b heq => (nomatch heq), fun _ _ => hbody⟩

/-- A loop keeps what its body keeps. -/
theorem Alone.forEach {ι : Type} {J : σ → Prop} {is : List ι} {f : ι → Thread L σ ε Unit} {s : σ}
    (hs : J s) (h : ∀ i ∈ is, ∀ s, J s → Alone allowed (fun _ => J) R (f i) s) :
    Alone allowed (fun _ => J) R (forEach is f) s := by
  induction is generalizing s with
  | nil => exact hs
  | cons i is ih =>
      exact (h i List.mem_cons_self s hs).andThen fun _ s' hs' =>
        ih hs' fun j hj => h j (List.mem_cons_of_mem i hj)

/-- A thread keeps what each of its sections keeps. -/
theorem MadeOf.alone {S : (β : Type) → L → Eff σ ε β → Prop} {I : σ → Prop}
    (hS : ∀ β label (body : Eff σ ε β), S β label body → Eff.Moves (Eff.Keeps I) body)
    {t : Thread L σ ε α} (ht : t.MadeOf S) {s : σ} (hs : I s) :
    Alone allowed (fun _ => I) I t s := by
  induction t generalizing s with
  | ret r => cases r <;> exact hs
  | sec label body next ih =>
      intro _
      have hbody := hS _ label body ht.1 s hs
      exact ⟨fun b _ => ih b (ht.2 b) hbody, fun _ _ => hbody⟩

/-- Where a thread run alone ends. -/
theorem Alone.final {I : σ → Prop} {t : Thread L σ ε α} {s : σ}
    (h : Alone allowed (fun _ => I) I t s) (hallow : t.AllowedRun allowed s) : I (t.run s).2 := by
  induction t generalizing s with
  | ret r => cases r <;> exact h
  | sec label body next ih =>
      obtain ⟨hok, herror⟩ := h hallow.1
      have hrest := hallow.2
      rw [Thread.run, Eff.run_bind]
      cases hb : body s with
      | mk r s' =>
          rw [hb] at hok herror hrest
          cases r with
          | ok b => exact ih b (hok b rfl) (hrest b rfl)
          | error e => exact herror e rfl

end Alone

/-! ## A thread stopped anywhere -/

/-- How many of the first `n` sections that returned count, by their labels. -/
def countFor (counts : L → Bool) : Nat → Thread L σ ε α → σ → Nat
  | 0, _, _ => 0
  | _ + 1, ret _, _ => 0
  | n + 1, sec label body next, s =>
      match body s with
      | (.ok b, s') => (counts label).toNat + countFor counts n (next b) s'
      | (.error _, _) => 0

/-- Run alone from `s` with `k` counted so far, `P` holds of the count and the state
wherever the thread is stopped, and a return satisfies `Q`. -/
def Along (counts : L → Bool) (P : Nat → σ → Prop) (Q : α → Nat → σ → Prop) :
    Nat → Thread L σ ε α → σ → Prop
  | k, ret (.ok a), s => P k s ∧ Q a k s
  | k, ret (.error _), s => P k s
  | k, sec label body next, s => P k s ∧
      (∀ b, (body s).1 = .ok b →
        Along counts P Q (k + (counts label).toNat) (next b) (body s).2) ∧
      ∀ e, (body s).1 = .error e → P k (body s).2

section Along

variable {counts : L → Bool} {P : Nat → σ → Prop} {Q : α → Nat → σ → Prop} {k : Nat}
  {t : Thread L σ ε α} {s : σ}

theorem Along.start (h : Along counts P Q k t s) : P k s := by
  cases t with
  | ret r =>
      cases r with
      | ok a => exact h.1
      | error e => exact h
  | sec label body next => exact h.1

/-- Continue from what the first thread returns where it ends. -/
theorem Along.andThen {Q' : β → Nat → σ → Prop} {f : α → Thread L σ ε β}
    (h : Along counts P Q k t s)
    (hf : ∀ a k' s', t.run s = (.ok a, s') → P k' s' → Q a k' s' →
      Along counts P Q' k' (f a) s') :
    Along counts P Q' k (t.andThen f) s := by
  induction t generalizing k s with
  | ret r =>
      cases r with
      | ok a => exact hf a k s rfl h.1 h.2
      | error e => exact h
  | sec label body next ih =>
      obtain ⟨hstart, hok, herror⟩ := h
      refine ⟨hstart, fun b hb => ih b (hok b hb) fun a k' s' hrun => hf a k' s' ?_, herror⟩
      have hbody : body s = (.ok b, (body s).2) := by rw [← hb]
      rw [run, Eff.run_bind_ok hbody]
      exact hrun

theorem Along.atomic {label : L} {body : Eff σ ε α} (hs : P k s)
    (hok : ∀ a s', body s = (.ok a, s') →
      P (k + (counts label).toNat) s' ∧ Q a (k + (counts label).toNat) s')
    (herror : ∀ e s', body s = (.error e, s') → P k s') :
    Along counts P Q k (atomic label body) s := by
  refine ⟨hs, fun a ha => hok a _ ?_, fun e he => herror e _ ?_⟩
  · rw [← ha]
  · rw [← he]

/-- A thread of sections that do not count keeps what each of them keeps. -/
theorem MadeOf.along {S : (β : Type) → L → Eff σ ε β → Prop}
    (hS : ∀ β label (body : Eff σ ε β), S β label body →
      counts label = false ∧ Eff.Moves (Eff.Keeps (P k)) body)
    (ht : t.MadeOf S) (hs : P k s) : Along counts P (fun _ k' _ => k' = k) k t s := by
  induction t generalizing s with
  | ret r =>
      cases r with
      | ok a => exact ⟨hs, rfl⟩
      | error e => exact hs
  | sec label body next ih =>
      obtain ⟨hcount, hkeeps⟩ := hS _ label body ht.1
      refine ⟨hs, fun b _ => ?_, fun _ _ => hkeeps s hs⟩
      rw [hcount]
      exact ih b (ht.2 b) (hkeeps s hs)

/-- What holds where the thread is stopped. -/
theorem Along.runFor (h : Along counts P Q k t s) (n : Nat) :
    P (k + t.countFor counts n s) (t.runFor n s).2 := by
  induction n generalizing k t s with
  | zero => exact h.start
  | succ n ih =>
      cases t with
      | ret r =>
          have hrest := ih (t := ret r) h
          cases n <;> exact hrest
      | sec label body next =>
          obtain ⟨-, hok, herror⟩ := h
          cases hb : body s with
          | mk r s' =>
              rw [hb] at hok herror
              cases r with
              | ok b =>
                  have hrest := ih (hok b rfl)
                  simpa [countFor, Thread.runFor, Thread.step, hb, Nat.add_assoc] using hrest
              | error e =>
                  have hrest := ih (t := ret (.error e)) (s := s') (herror e rfl)
                  have hzero : (ret (.error e) : Thread L σ ε α).countFor counts n s' = 0 := by
                    cases n <;> rfl
                  rw [hzero] at hrest
                  simpa [countFor, Thread.runFor, Thread.step, hb] using hrest

/-- What holds of a return. -/
theorem Along.returned (h : Along counts P Q k t s) {a : α} {s' : σ}
    (hrun : t.run s = (.ok a, s')) : ∃ k', P k' s' ∧ Q a k' s' := by
  induction t generalizing k s with
  | ret r =>
      obtain ⟨rfl, rfl⟩ := Eff.ofExcept_eq_ok.mp hrun
      exact ⟨k, h⟩
  | sec label body next ih =>
      obtain ⟨b, m, hb, hnext⟩ := Eff.bind_eq_ok.mp hrun
      have hok := h.2.1 b
      rw [hb] at hok
      exact ih b (hok rfl) hnext

end Along

/-! ## One thread against the others -/

/-- From `s`, whatever the others do within `R` while keeping `I`, every allowed
section meets its guarantee and keeps `I`, and a return satisfies `Q`. -/
def Safe (I : σ → Prop) (R : σ → σ → Prop) (allowed : L → σ → Prop)
    (guarantee : L → σ → σ → Prop) (Q : α → σ → Prop) : Thread L σ ε α → σ → Prop
  | ret (.ok a), s => Q a s
  | ret (.error _), _ => True
  | sec label body next, s =>
      ∀ s', R s s' → I s' → allowed label s' →
        guarantee label s' (body s').2 ∧ I (body s').2 ∧
          ∀ b, (body s').1 = .ok b → Safe I R allowed guarantee Q (next b) (body s').2

section Safe

variable {I : σ → Prop} {R : σ → σ → Prop} {allowed : L → σ → Prop}
  {guarantee : L → σ → σ → Prop} {Q : α → σ → Prop}

/-- A postcondition that moves of the others cannot break. -/
def Stable (I : σ → Prop) (R : σ → σ → Prop) (Q : α → σ → Prop) : Prop :=
  ∀ a s s', R s s' → I s' → Q a s → Q a s'

theorem Safe.stable [IsTrans σ R] (hQ : Stable I R Q) {t : Thread L σ ε α} {s s' : σ}
    (h : Safe I R allowed guarantee Q t s) (hR : R s s') (hI : I s') :
    Safe I R allowed guarantee Q t s' := by
  cases t with
  | ret r =>
      cases r with
      | ok a => exact hQ a s s' hR hI h
      | error e => trivial
  | sec label body next => exact fun s'' hR' => h s'' (IsTrans.trans s s' s'' hR hR')

theorem Safe.andThen {P : β → σ → Prop} {f : α → Thread L σ ε β} {t : Thread L σ ε α} {s : σ}
    (h : Safe I R allowed guarantee Q t s)
    (hf : ∀ a s, Q a s → Safe I R allowed guarantee P (f a) s) :
    Safe I R allowed guarantee P (t.andThen f) s := by
  induction t generalizing s with
  | ret r =>
      cases r with
      | ok a => exact hf a s h
      | error e => trivial
  | sec label body next ih =>
      intro s' hR hI hallow
      obtain ⟨hg, hI', hnext⟩ := h s' hR hI hallow
      exact ⟨hg, hI', fun b hb => ih b (hnext b hb)⟩

theorem Safe.atomic {label : L} {body : Eff σ ε α} {s : σ}
    (h : ∀ s', R s s' → I s' → allowed label s' →
      guarantee label s' (body s').2 ∧ I (body s').2 ∧
        ∀ a, (body s').1 = .ok a → Q a (body s').2) :
    Safe I R allowed guarantee Q (atomic label body) s := h

theorem Safe.ret {a : α} {s : σ} (h : Q a s) : Safe I R allowed guarantee Q (ret (.ok a) : Thread L σ ε α) s :=
  h

/-- A return also satisfies what every return does. -/
theorem Safe.and_returns {P : α → Prop} {t : Thread L σ ε α} {s : σ}
    (h : Safe I R allowed guarantee Q t s) (hP : t.Returns P) :
    Safe I R allowed guarantee (fun a s => Q a s ∧ P a) t s := by
  induction t generalizing s with
  | ret r =>
      cases r with
      | ok a => exact ⟨h, hP⟩
      | error e => trivial
  | sec label body next ih =>
      intro s' hR hI hallow
      obtain ⟨hg, hI', hnext⟩ := h s' hR hI hallow
      exact ⟨hg, hI', fun b hb => ih b (hnext b hb) (hP b)⟩

/-- What nothing can break still holds of a return. -/
theorem Safe.frame {J : σ → Prop} (hJ : ∀ s s', R s s' → J s → J s')
    (hg : ∀ label s s', guarantee label s s' → R s s') {t : Thread L σ ε α} {s : σ}
    (h : Safe I R allowed guarantee Q t s) (hs : J s) :
    Safe I R allowed guarantee (fun a s => Q a s ∧ J s) t s := by
  induction t generalizing s with
  | ret r =>
      cases r with
      | ok a => exact ⟨h, hs⟩
      | error e => trivial
  | sec label body next ih =>
      intro s' hR hI hallow
      obtain ⟨hmeets, hI', hnext⟩ := h s' hR hI hallow
      have hJ' := hJ s' _ (hg label s' _ hmeets) (hJ s s' hR hs)
      exact ⟨hmeets, hI', fun b hb => ih b (hnext b hb) hJ'⟩

theorem Safe.mono {Q' : α → σ → Prop} {t : Thread L σ ε α} {s : σ}
    (h : Safe I R allowed guarantee Q t s) (hQ : ∀ a s, Q a s → Q' a s) :
    Safe I R allowed guarantee Q' t s := by
  have hthen := h.andThen (P := Q') (f := fun a => Thread.ret (.ok a)) hQ
  rw [andThen_ret] at hthen
  exact hthen

theorem Safe.runIf {J : σ → Prop} {c : Prop} [Decidable c] {t : Thread L σ ε Unit} {s : σ} (hs : J s)
    (h : c → Safe I R allowed guarantee (fun _ => J) t s) :
    Safe I R allowed guarantee (fun _ => J) (runIf c t) s := by
  unfold Thread.runIf
  by_cases hc : c
  · rw [if_pos hc]
    exact h hc
  · rw [if_neg hc]
    exact hs

/-- A safe thread that runs alone returns what it should. -/
theorem Safe.returned [Std.Refl R] {t : Thread L σ ε α} {s s' : σ} {a : α}
    (h : Safe I R allowed guarantee Q t s) (hI : I s) (hallow : t.AllowedRun allowed s)
    (hrun : t.run s = (.ok a, s')) : Q a s' := by
  induction t generalizing s with
  | ret r =>
      obtain ⟨rfl, rfl⟩ := Eff.ofExcept_eq_ok.mp hrun
      exact h
  | sec label body next ih =>
      obtain ⟨b, m, hb, hnext⟩ := Eff.bind_eq_ok.mp hrun
      obtain ⟨-, hI', hsafe⟩ := h s (Std.Refl.refl s) hI hallow.1
      have hrest := hallow.2
      rw [hb] at hI' hsafe hrest
      exact ih b (hsafe b rfl) hI' (hrest b rfl) hnext

/-- A loop is safe when its body is, from any state the loop invariant allows. -/
theorem Safe.forEach {ι : Type} {J : σ → Prop} {is : List ι} {f : ι → Thread L σ ε Unit} {s : σ}
    (hs : J s)
    (h : ∀ i ∈ is, ∀ s, J s → Safe I R allowed guarantee (fun _ => J) (f i) s) :
    Safe I R allowed guarantee (fun _ => J) (forEach is f) s := by
  induction is generalizing s with
  | nil => exact hs
  | cons i is ih =>
      exact (h i List.mem_cons_self s hs).andThen fun _ s' hs' =>
        ih hs' fun j hj => h j (List.mem_cons_of_mem i hj)

end Safe

end Thread

/-! ## One thread after another -/

section Sequential

variable {L σ ε : Type}

/-- The states programs lead to, each run alone through allowed sections. -/
inductive Sequential (start : Thread L σ ε Unit → Prop) (allowed : L → σ → Prop) (s₀ : σ) : σ → Prop
  | refl : Sequential start allowed s₀ s₀
  | tail {t : Thread L σ ε Unit} {s : σ} : Sequential start allowed s₀ s → start t →
      t.AllowedRun allowed s → Sequential start allowed s₀ (t.run s).2

/-- An invariant each program keeps when it runs alone holds after any number of them. -/
theorem sequential_invariant {start : Thread L σ ε Unit → Prop} {allowed : L → σ → Prop}
    {I : σ → Prop} (hstart : ∀ t, start t → ∀ s, I s → t.Alone allowed (fun _ => I) I s)
    {s₀ s : σ} (h₀ : I s₀) (h : Sequential start allowed s₀ s) : I s := by
  induction h with
  | refl => exact h₀
  | tail _ ht hallow ih => exact (hstart _ ht _ ih).final hallow

end Sequential

/-! ## Pools -/

section Pool

variable {L σ ε : Type}

/-- The threads in flight and the state they share. -/
structure Config (L σ ε : Type) where
  threads : List (Thread L σ ε Unit)
  state : σ

/-- A thread of the pool takes its next section, a new thread starts, or one stops for good. -/
inductive Step (start : Thread L σ ε Unit → Prop) (allowed : L → σ → Prop) :
    Config L σ ε → Config L σ ε → Prop
  | spawn {ts s t} : start t → Step start allowed ⟨ts, s⟩ ⟨t :: ts, s⟩
  | stop {pre post t s} : Step start allowed ⟨pre ++ t :: post, s⟩ ⟨pre ++ post, s⟩
  | take {β : Type} {pre post s label} {body : Eff σ ε β} {next} : allowed label s →
      Step start allowed ⟨pre ++ .sec label body next :: post, s⟩
        ⟨pre ++ ((Thread.sec label body next).step s).1 :: post,
          ((Thread.sec label body next).step s).2⟩

/-- The configurations the pool reaches from an empty pool in `s₀`. -/
def Reachable (start : Thread L σ ε Unit → Prop) (allowed : L → σ → Prop) (s₀ : σ) :
    Config L σ ε → Prop :=
  Relation.ReflTransGen (Step start allowed) ⟨[], s₀⟩

theorem step_of_ok {β : Type} {label : L} {body : Eff σ ε β} {next : β → Thread L σ ε Unit}
    {s s' : σ} {b : β} (h : body s = (.ok b, s')) :
    (Thread.sec label body next).step s = (next b, s') := by
  simp [Thread.step, h]

theorem step_of_error {β : Type} {label : L} {body : Eff σ ε β} {next : β → Thread L σ ε Unit}
    {s s' : σ} {e : ε} (h : body s = (.error e, s')) :
    (Thread.sec label body next).step s = (.ret (.error e), s') := by
  simp [Thread.step, h]

theorem step_state {β : Type} (label : L) (body : Eff σ ε β) (next : β → Thread L σ ε Unit)
    (s : σ) : ((Thread.sec label body next).step s).2 = (body s).2 := by
  cases hb : body s with
  | mk r s' =>
      cases r with
      | ok b => rw [step_of_ok hb]
      | error e => rw [step_of_error hb]

variable {I : σ → Prop} {R : σ → σ → Prop} {allowed : L → σ → Prop}
  {guarantee : L → σ → σ → Prop} {start : Thread L σ ε Unit → Prop}

/-- Every thread of the pool is safe where the pool stands. -/
def PoolSafe (I : σ → Prop) (R : σ → σ → Prop) (allowed : L → σ → Prop)
    (guarantee : L → σ → σ → Prop) (c : Config L σ ε) : Prop :=
  I c.state ∧ ∀ t ∈ c.threads, t.Safe I R allowed guarantee (fun _ _ => True) c.state

private theorem stable_true : Thread.Stable I R (fun (_ : Unit) (_ : σ) => True) :=
  fun _ _ _ _ _ _ => trivial

private theorem safe_rest {β : Type} {label : L} {body : Eff σ ε β}
    {next : β → Thread L σ ε Unit} {s : σ}
    (h : ∀ b, (body s).1 = .ok b →
      (next b).Safe I R allowed guarantee (fun _ _ => True) (body s).2) :
    ((Thread.sec label body next).step s).1.Safe I R allowed guarantee (fun _ _ => True)
      (body s).2 := by
  cases hb : body s with
  | mk r s' =>
      rw [hb] at h
      cases r with
      | ok b => rw [step_of_ok hb]; exact h b rfl
      | error e => rw [step_of_error hb]; trivial

theorem PoolSafe.step [Std.Refl R] [IsTrans σ R]
    (hstart : ∀ t, start t → ∀ s, I s → t.Safe I R allowed guarantee (fun _ _ => True) s)
    (hR : ∀ label s s', I s → guarantee label s s' → R s s') {c c' : Config L σ ε}
    (h : PoolSafe I R allowed guarantee c) (hstep : Step start allowed c c') :
    PoolSafe I R allowed guarantee c' := by
  obtain ⟨hI, hsafe⟩ := h
  cases hstep with
  | spawn ht =>
      refine ⟨hI, fun t hmem => ?_⟩
      rcases List.mem_cons.mp hmem with rfl | hmem
      · exact hstart t ht _ hI
      · exact hsafe t hmem
  | stop =>
      refine ⟨hI, fun t hmem => hsafe t ?_⟩
      rcases List.mem_append.mp hmem with hmem | hmem
      · exact List.mem_append_left _ hmem
      · exact List.mem_append_right _ (List.mem_cons_of_mem _ hmem)
  | @take β pre post s label body next hallow =>
      have hself := hsafe _ (List.mem_append_right pre List.mem_cons_self) s
        (Std.Refl.refl s) hI hallow
      obtain ⟨hg, hI', hnext⟩ := hself
      have hmove : R s (body s).2 := hR label s _ hI hg
      refine ⟨by rw [step_state]; exact hI', fun t hmem => ?_⟩
      rw [step_state]
      have hother : ∀ t, t ∈ pre ++ Thread.sec label body next :: post →
          t.Safe I R allowed guarantee (fun _ _ => True) (body s).2 := fun t ht =>
        (hsafe t ht).stable stable_true hmove hI'
      rcases List.mem_append.mp hmem with hmem | hmem
      · exact hother t (List.mem_append_left _ hmem)
      · rcases List.mem_cons.mp hmem with rfl | hmem
        · exact safe_rest hnext
        · exact hother t (List.mem_append_right _ (List.mem_cons_of_mem _ hmem))

/-- Over any interleaving, every thread stays safe and the invariant holds. -/
theorem reachable_safe [Std.Refl R] [IsTrans σ R]
    (hstart : ∀ t, start t → ∀ s, I s → t.Safe I R allowed guarantee (fun _ _ => True) s)
    (hR : ∀ label s s', I s → guarantee label s s' → R s s') {s₀ : σ} (h₀ : I s₀)
    {c : Config L σ ε} (h : Reachable start allowed s₀ c) :
    PoolSafe I R allowed guarantee c := by
  induction h with
  | refl => exact ⟨h₀, fun t ht => by simp at ht⟩
  | tail _ hstep ih => exact ih.step hstart hR hstep

/-- A thread whose sections keep the invariant is safe, whatever the others do. -/
theorem Thread.MadeOf.safe {S : (β : Type) → L → Eff σ ε β → Prop} {α : Type}
    (hS : ∀ β label (body : Eff σ ε β) s, S β label body → allowed label s → I s → I (body s).2)
    {t : Thread L σ ε α} (ht : t.MadeOf S) (s : σ) :
    t.Safe I (fun _ _ => True) allowed (fun _ _ _ => True) (fun _ _ => True) s := by
  induction t generalizing s with
  | ret r => cases r <;> trivial
  | sec label body next ih =>
      intro s' _ hI hallow
      exact ⟨trivial, hS _ label body s' ht.1 hallow hI, fun b _ => ih b (ht.2 b) _⟩

/-- A thread is safe when its sections are wherever a condition the others cannot break holds. -/
theorem Thread.MadeOf.safe_of {S : (β : Type) → L → Eff σ ε β → Prop} {J : σ → Prop} {α : Type}
    (hJ : ∀ s s', R s s' → J s → J s')
    (hS : ∀ β label (body : Eff σ ε β) s, S β label body → allowed label s → I s → J s →
      guarantee label s (body s).2 ∧ I (body s).2 ∧ J (body s).2)
    {t : Thread L σ ε α} (ht : t.MadeOf S) {s : σ} (hs : J s) :
    t.Safe I R allowed guarantee (fun _ => J) s := by
  induction t generalizing s with
  | ret r =>
      cases r with
      | ok a => exact hs
      | error e => trivial
  | sec label body next ih =>
      intro s' hR hI hallow
      obtain ⟨hg, hI', hJ'⟩ := hS _ label body s' ht.1 hallow hI (hJ s s' hR hs)
      exact ⟨hg, hI', fun b _ => ih b (ht.2 b) hJ'⟩

/-- An invariant that every allowed section keeps holds over any interleaving. -/
theorem reachable_invariant {S : (β : Type) → L → Eff σ ε β → Prop}
    (hmade : ∀ t, start t → t.MadeOf S)
    (hS : ∀ β label (body : Eff σ ε β) s, S β label body → allowed label s → I s → I (body s).2)
    {s₀ : σ} (h₀ : I s₀) {c : Config L σ ε} (h : Reachable start allowed s₀ c) : I c.state := by
  have hrefl : Std.Refl fun _ _ : σ => True := ⟨fun _ => trivial⟩
  have htrans : IsTrans σ fun _ _ => True := ⟨fun _ _ _ _ _ => trivial⟩
  have hsafe : PoolSafe I (fun _ _ => True) allowed (fun _ _ _ => True) c :=
    reachable_safe (fun t ht s _ => (hmade t ht).safe hS s) (fun _ _ _ _ _ => trivial) h₀ h
  exact hsafe.1

/-- Sections allowed wherever an invariant holds may be allowed on other grounds. -/
theorem Reachable.allowed_of_invariant {allowed' : L → σ → Prop} {s₀ : σ}
    (hI : ∀ c, Reachable start allowed s₀ c → I c.state)
    (hallow : ∀ label s, I s → allowed label s → allowed' label s) {c : Config L σ ε}
    (h : Reachable start allowed s₀ c) : Reachable start allowed' s₀ c := by
  induction h with
  | refl => exact .refl
  | tail hc hstep ih =>
      refine ih.tail ?_
      cases hstep with
      | spawn ht => exact .spawn ht
      | stop => exact .stop
      | take htake => exact .take (hallow _ _ (hI _ hc) htake)

/-! ## Schedules -/

/-- Each of the next `n` sections of a thread is taken where it is allowed. -/
def Thread.AllowedFor (allowed : L → σ → Prop) {α : Type} : Nat → Thread L σ ε α → σ → Prop
  | 0, _, _ => True
  | _ + 1, ret _, _ => True
  | n + 1, sec label body next, s =>
      allowed label s ∧ AllowedFor allowed n ((sec label body next).step s).1
        ((sec label body next).step s).2

/-- Let the `i`-th thread of a pool take `n` sections. -/
def Config.advance (c : Config L σ ε) (i n : Nat) : Config L σ ε :=
  match c.threads[i]? with
  | some t => ⟨c.threads.set i (t.runFor n c.state).1, (t.runFor n c.state).2⟩
  | none => c

/-- Let threads of a pool take their turns. -/
def Config.follow : Config L σ ε → List (Nat × Nat) → Config L σ ε
  | c, [] => c
  | c, (i, n) :: plan => (c.advance i n).follow plan

/-- Every section taken in these turns is allowed. -/
def Config.Allows (allowed : L → σ → Prop) : Config L σ ε → List (Nat × Nat) → Prop
  | _, [] => True
  | c, (i, n) :: plan =>
      (∀ t, c.threads[i]? = some t → t.AllowedFor allowed n c.state) ∧
        Config.Allows allowed (c.advance i n) plan

theorem Thread.allowedFor_of_forall (h : ∀ label s, allowed label s) {α : Type} (n : Nat)
    (t : Thread L σ ε α) (s : σ) : t.AllowedFor allowed n s := by
  induction n generalizing t s with
  | zero => trivial
  | succ n ih =>
      cases t with
      | ret r => trivial
      | sec label body next => exact ⟨h label s, ih _ _⟩

theorem Config.allows_of_forall (h : ∀ label s, allowed label s) (c : Config L σ ε)
    (plan : List (Nat × Nat)) : c.Allows allowed plan := by
  induction plan generalizing c with
  | nil => trivial
  | cons turn plan ih => exact ⟨fun t _ => t.allowedFor_of_forall h _ _, ih _⟩

theorem reachable_runFor {s₀ s : σ} {pre post : List (Thread L σ ε Unit)} {t : Thread L σ ε Unit}
    {n : Nat} (h : Reachable start allowed s₀ ⟨pre ++ t :: post, s⟩)
    (hallow : t.AllowedFor allowed n s) :
    Reachable start allowed s₀ ⟨pre ++ (t.runFor n s).1 :: post, (t.runFor n s).2⟩ := by
  induction n generalizing t s with
  | zero => exact h
  | succ n ih =>
      cases t with
      | ret r => exact ih h (by cases n <;> trivial)
      | sec label body next => exact ih (h.tail (.take hallow.1)) hallow.2

theorem reachable_advance {s₀ : σ} {c : Config L σ ε} {i n : Nat}
    (h : Reachable start allowed s₀ c)
    (hallow : ∀ t, c.threads[i]? = some t → t.AllowedFor allowed n c.state) :
    Reachable start allowed s₀ (c.advance i n) := by
  obtain ⟨ts, s⟩ := c
  unfold Config.advance
  cases ht : ts[i]? with
  | none => simpa [ht] using h
  | some t =>
      obtain ⟨hi, rfl⟩ := List.getElem?_eq_some_iff.mp ht
      have hsplit : ts = ts.take i ++ ts[i] :: ts.drop (i + 1) := by
        rw [List.getElem_cons_drop, List.take_append_drop]
      have hset : ∀ u, ts.set i u = ts.take i ++ u :: ts.drop (i + 1) := fun u =>
        List.set_eq_take_append_cons_drop.trans (if_pos hi)
      simp only [hset]
      refine reachable_runFor ?_ (hallow _ ht)
      rw [← hsplit]
      exact h

/-- A pool reaches where a schedule of its threads leads. -/
theorem reachable_follow {s₀ : σ} {c : Config L σ ε} {plan : List (Nat × Nat)}
    (h : Reachable start allowed s₀ c) (hallow : c.Allows allowed plan) :
    Reachable start allowed s₀ (c.follow plan) := by
  induction plan generalizing c with
  | nil => exact h
  | cons turn plan ih => exact ih (reachable_advance h hallow.1) hallow.2

/-- A pool of threads that may start. -/
theorem reachable_pool {s₀ : σ} {ts : List (Thread L σ ε Unit)} (h : ∀ t ∈ ts, start t) :
    Reachable start allowed s₀ ⟨ts, s₀⟩ := by
  induction ts with
  | nil => exact .refl
  | cons t ts ih =>
      exact (ih fun u hu => h u (List.mem_cons_of_mem t hu)).tail (.spawn (h t List.mem_cons_self))

/-- Over any interleaving, every section taken meets its guarantee. -/
theorem guarantee_of_take [Std.Refl R] [IsTrans σ R]
    (hstart : ∀ t, start t → ∀ s, I s → t.Safe I R allowed guarantee (fun _ _ => True) s)
    (hR : ∀ label s s', I s → guarantee label s s' → R s s') {s₀ : σ} (h₀ : I s₀)
    {β : Type} {pre post : List (Thread L σ ε Unit)} {label : L} {body : Eff σ ε β}
    {next : β → Thread L σ ε Unit} {s : σ}
    (h : Reachable start allowed s₀ ⟨pre ++ .sec label body next :: post, s⟩)
    (hallow : allowed label s) : guarantee label s (body s).2 :=
  ((reachable_safe hstart hR h₀ h).2 _ (List.mem_append_right pre List.mem_cons_self) s
    (Std.Refl.refl s) (reachable_safe hstart hR h₀ h).1 hallow).1

end Pool

end Sections
