import GrinWallet.Runs.Outputs

/-! # The account map

A user names accounts, and a scan that finds outputs of a path without a label
makes one up from the number of accounts. New paths are counted up from the
highest one. Whether a label and a path are free is checked by the first and not
by the second.
-/

namespace GrinWallet

open Effect WalletBackend OrderedTable Sections

variable {F E : Type}

/-! ## Labels made up by a scan -/

namespace Scan

/-- The mappings a scan adds for the paths it found, the labels in use being counted. -/
def newAccounts (accounts : List Identifier) :
    Nat → List (Identifier × Nat) → List AcctPathMapping
  | _, [] => []
  | index, (path, _) :: found =>
      if path ∈ accounts then newAccounts accounts index found
      else ⟨accountLabel index, path⟩ :: newAccounts accounts (index + 1) found

theorem accountLabel_inj {i j : Nat} (h : accountLabel i = accountLabel j) : i = j := by
  have hdigits : i.repr.toList = j.repr.toList := List.append_cancel_left h
  rw [Nat.toList_repr, Nat.toList_repr] at hdigits
  have hvalue := congrArg (Nat.ofDigitChars 10 · 0) hdigits
  simpa using hvalue

variable {accounts : List Identifier}

theorem newAccounts_label {m : AcctPathMapping} {index : Nat} {found : List (Identifier × Nat)}
    (h : m ∈ newAccounts accounts index found) : ∃ i, index ≤ i ∧ m.label = accountLabel i := by
  induction found generalizing index with
  | nil => cases h
  | cons p found ih =>
      obtain ⟨path, n⟩ := p
      unfold newAccounts at h
      by_cases hp : path ∈ accounts
      · rw [if_pos hp] at h
        exact ih h
      · rw [if_neg hp] at h
        rcases List.mem_cons.mp h with rfl | h
        · exact ⟨index, Nat.le_refl index, rfl⟩
        · obtain ⟨i, hi, hl⟩ := ih h
          exact ⟨i, by omega, hl⟩

theorem newAccounts_labels (index : Nat) (found : List (Identifier × Nat)) :
    (newAccounts accounts index found).Pairwise fun m m' => m.label ≠ m'.label := by
  induction found generalizing index with
  | nil => exact List.Pairwise.nil
  | cons p found ih =>
      obtain ⟨path, n⟩ := p
      unfold newAccounts
      by_cases hp : path ∈ accounts
      · rw [if_pos hp]
        exact ih index
      · rw [if_neg hp]
        refine List.pairwise_cons.mpr ⟨fun m hm heq => ?_, ih (index + 1)⟩
        obtain ⟨i, hi, hl⟩ := newAccounts_label hm
        have hsame := accountLabel_inj (heq.trans hl)
        omega

theorem newAccounts_path {m : AcctPathMapping} {index : Nat} {found : List (Identifier × Nat)}
    (h : m ∈ newAccounts accounts index found) : m.path ∈ found.map Prod.fst ∧ m.path ∉ accounts := by
  induction found generalizing index with
  | nil => cases h
  | cons p found ih =>
      obtain ⟨path, n⟩ := p
      unfold newAccounts at h
      by_cases hp : path ∈ accounts
      · rw [if_pos hp] at h
        exact ⟨List.mem_cons_of_mem _ (ih h).1, (ih h).2⟩
      · rw [if_neg hp] at h
        rcases List.mem_cons.mp h with rfl | h
        · exact ⟨List.mem_cons_self, hp⟩
        · exact ⟨List.mem_cons_of_mem _ (ih h).1, (ih h).2⟩

/-- Two mappings added for different entries have different paths. -/
theorem newAccounts_distinct {index : Nat} {found : List (Identifier × Nat)}
    (hfound : (found.map Prod.fst).Nodup) {m m' : AcctPathMapping}
    (hm : m ∈ newAccounts accounts index found) (hm' : m' ∈ newAccounts accounts index found)
    (h : m.path = m'.path) : m = m' := by
  induction found generalizing index with
  | nil => cases hm
  | cons p found ih =>
      obtain ⟨path, n⟩ := p
      obtain ⟨hnot, hrest⟩ := List.nodup_cons.mp hfound
      unfold newAccounts at hm hm'
      by_cases hp : path ∈ accounts
      · rw [if_pos hp] at hm hm'
        exact ih hrest hm hm'
      · rw [if_neg hp] at hm hm'
        rcases List.mem_cons.mp hm with rfl | hm
        · rcases List.mem_cons.mp hm' with rfl | hm'
          · rfl
          · have hin := (newAccounts_path hm').1
            rw [← h] at hin
            exact (hnot hin).elim
        · rcases List.mem_cons.mp hm' with rfl | hm'
          · have hin := (newAccounts_path hm).1
            rw [h] at hin
            exact (hnot hin).elim
          · exact ih hrest hm hm'

/-- Every path found is in use already or gets a mapping. -/
theorem newAccounts_covers (accounts : List Identifier) (index : Nat)
    {found : List (Identifier × Nat)} {path : Identifier}
    (h : path ∈ found.map Prod.fst) :
    path ∈ accounts ∨ ∃ m ∈ newAccounts accounts index found, m.path = path := by
  induction found generalizing index with
  | nil => cases h
  | cons p found ih =>
      obtain ⟨q, n⟩ := p
      unfold newAccounts
      by_cases hq : q ∈ accounts
      · rw [if_pos hq]
        rcases List.mem_cons.mp h with rfl | h
        · exact .inl hq
        · exact ih index h
      · rw [if_neg hq]
        rcases List.mem_cons.mp h with rfl | h
        · exact .inr ⟨_, List.mem_cons_self, rfl⟩
        · rcases ih (index + 1) h with hin | ⟨m, hm, hp⟩
          · exact .inl hin
          · exact .inr ⟨m, List.mem_cons_of_mem _ hm, hp⟩

/-- What restoring accounts does to the tables. -/
theorem run_restoreFound (accounts : List Identifier) (index : Nat)
    (found : List (Identifier × Nat)) (w : WalletBackend F E) :
    ∃ f, (restoreFound accounts index found).run w =
      (.ok (), { w with store := { w.store with
        acctPaths := (newAccounts accounts index found).foldl Table.put w.store.acctPaths
        childIndex := f } }) := by
  induction found generalizing index w with
  | nil => exact ⟨w.store.childIndex, rfl⟩
  | cons p found ih =>
      obtain ⟨path, n⟩ := p
      have hraise : ∀ s : Store E, ∃ f, raiseChildIndex path n s = { s with childIndex := f } := by
        intro s
        unfold raiseChildIndex
        by_cases h : n ≥ s.childIndex path
        · rw [if_pos h]
          exact ⟨_, rfl⟩
        · rw [if_neg h]
          exact ⟨s.childIndex, rfl⟩
      unfold restoreFound newAccounts
      by_cases hp : path ∈ accounts
      · rw [if_pos hp, if_pos hp]
        obtain ⟨f, hf⟩ := hraise w.store
        obtain ⟨f', hf'⟩ := ih index { w with store := raiseChildIndex path n w.store }
        refine ⟨f', ?_⟩
        rw [hf] at hf'
        refine Eq.trans ?_ hf'
        rw [← hf]
        simp only [Thread.bind_eq, Thread.run_andThen, Thread.run_atomic]
        rfl
      · rw [if_neg hp, if_neg hp]
        obtain ⟨f, hf⟩ := hraise (Keys.setAcctPath (accountLabel index) path w.store)
        obtain ⟨f', hf'⟩ := ih (index + 1)
          { w with store := raiseChildIndex path n (Keys.setAcctPath (accountLabel index) path w.store) }
        refine ⟨f', ?_⟩
        rw [hf] at hf'
        refine Eq.trans ?_ hf'
        rw [← hf]
        simp only [Thread.bind_eq, Thread.run_andThen, Thread.run_atomic]
        rfl

theorem run_restorePaths (found : List (Identifier × Nat)) (w : WalletBackend F E) :
    ∃ f, (restorePaths found).run w =
      (.ok (), { w with store := { w.store with
        acctPaths := (newAccounts (w.store.acctPaths.rows.map (·.path))
          w.store.acctPaths.rows.length found).foldl Table.put w.store.acctPaths
        childIndex := f } }) := by
  obtain ⟨f, hf⟩ := run_restoreFound (w.store.acctPaths.rows.map (·.path))
    (w.store.acctPaths.rows.map (·.path)).length found w
  refine ⟨f, ?_⟩
  rw [List.length_map] at hf
  refine Eq.trans ?_ hf
  unfold restorePaths
  simp only [Thread.bind_eq, Thread.run_andThen, Thread.run_atomic, List.length_map]
  rfl

/-! ## The paths of restored outputs -/

theorem noteParent_nodup (parent : Identifier) (n : Nat) {found : List (Identifier × Nat)}
    (h : (found.map Prod.fst).Nodup) : ((noteParent parent n found).map Prod.fst).Nodup ∧
      ∀ p, p ∈ (noteParent parent n found).map Prod.fst ↔ p = parent ∨ p ∈ found.map Prod.fst := by
  induction found with
  | nil => exact ⟨List.nodup_singleton parent, fun p => by simp [noteParent]⟩
  | cons q found ih =>
      obtain ⟨path, m⟩ := q
      obtain ⟨hnot, hrest⟩ := List.nodup_cons.mp h
      unfold noteParent
      by_cases hp : path = parent
      · rw [if_pos hp]
        refine ⟨List.nodup_cons.mpr ⟨hnot, hrest⟩, fun p => ?_⟩
        rw [List.map_cons, List.map_cons, List.mem_cons, hp]
        tauto
      · rw [if_neg hp]
        obtain ⟨hnodup, hmem⟩ := ih hrest
        refine ⟨List.nodup_cons.mpr ⟨fun hin => ?_, hnodup⟩, fun p => ?_⟩
        · rcases (hmem path).mp hin with heq | hin
          · exact hp heq
          · exact hnot hin
        · rw [List.map_cons, List.map_cons, List.mem_cons, hmem, List.mem_cons]
          tauto

theorem foldl_noteParent (outputs : List (OutputResult E)) {found : List (Identifier × Nat)}
    (h : (found.map Prod.fst).Nodup) :
    let r := outputs.foldl (fun found o => noteParent o.keyId.parentPath o.nChild found) found
    (r.map Prod.fst).Nodup ∧ ∀ p, p ∈ r.map Prod.fst ↔
      (∃ o ∈ outputs, o.keyId.parentPath = p) ∨ p ∈ found.map Prod.fst := by
  induction outputs generalizing found with
  | nil => exact ⟨h, fun p => by simp⟩
  | cons o outputs ih =>
      obtain ⟨hnodup, hmem⟩ := noteParent_nodup o.keyId.parentPath o.nChild h
      obtain ⟨hnodup', hmem'⟩ := ih hnodup
      refine ⟨hnodup', fun p => ?_⟩
      rw [List.foldl_cons, hmem', hmem, List.exists_mem_cons_iff, eq_comm (a := p), or_left_comm,
        or_assoc]

end Scan

/-! ## The invariant -/

namespace Store

/-- The mappings of the first tables are there, no two labels share a path, and
the path of every output has a label or is to get one. -/
structure MapSound (base : List AcctPathMapping) (pending : List Identifier) (s : Store E) :
    Prop where
  kept : ∀ m ∈ base, m ∈ s.acctPaths
  distinct : ∀ m ∈ s.acctPaths, ∀ m' ∈ s.acctPaths, m.path = m'.path → m = m'
  labelled : ∀ o ∈ s.outputs, o.rootKeyId ∈ pending ∨ ∃ m ∈ s.acctPaths, m.path = o.rootKeyId

variable {base : List AcctPathMapping} {pending : List Identifier} {s s' : Store E}

theorem MapSound.of_places (hs : s.MapSound base pending) (h : s.SamePlaces s') :
    s'.MapSound base pending := by
  obtain ⟨hpaths, hfrom⟩ := h
  refine ⟨?_, ?_, fun o' ho' => ?_⟩
  · rw [hpaths]
    exact hs.kept
  · rw [hpaths]
    exact hs.distinct
  · obtain ⟨o, ho, hsame⟩ := hfrom o' ho'
    rw [hpaths, hsame.1]
    exact hs.labelled o ho

theorem MapSound.mono {more : List Identifier} (hs : s.MapSound base pending)
    (h : ∀ p ∈ pending, p ∈ more) : s.MapSound base more := by
  refine ⟨hs.kept, hs.distinct, fun o ho => ?_⟩
  rcases hs.labelled o ho with hp | hm
  · exact .inl (h _ hp)
  · exact .inr hm

/-- Saving an output whose path has a label or is to get one. -/
theorem MapSound.save (hs : s.MapSound base pending) {o : OutputData E}
    (ho : o.rootKeyId ∈ pending ∨ ∃ m ∈ s.acctPaths, m.path = o.rootKeyId) :
    (s.save o).MapSound base pending := by
  refine ⟨hs.kept, hs.distinct, fun r hr => ?_⟩
  rcases Table.mem_put.mp hr with rfl | ⟨hr, -⟩
  · exact ho
  · exact hs.labelled r hr

/-- Adding mappings with new labels and new, different paths, one for each path to get one. -/
theorem MapSound.addAccounts (hs : s.MapSound base pending) (ms : List AcctPathMapping)
    (hlabels : ms.Pairwise fun m m' => m.label ≠ m'.label)
    (hnew : ∀ m ∈ ms, ∀ m' ∈ s.acctPaths, m'.label ≠ m.label)
    (hpaths : ∀ m ∈ ms, ∀ m' ∈ s.acctPaths, m'.path ≠ m.path)
    (hdistinct : ∀ m ∈ ms, ∀ m' ∈ ms, m.path = m'.path → m = m')
    (hcovers : ∀ p ∈ pending, ∃ m, (m ∈ s.acctPaths ∨ m ∈ ms) ∧ m.path = p) (f : Identifier → Nat) :
    ({ s with acctPaths := ms.foldl Table.put s.acctPaths, childIndex := f } : Store E).MapSound
      base [] := by
  have hmem : ∀ m, m ∈ ms.foldl Table.put s.acctPaths ↔ m ∈ s.acctPaths ∨ m ∈ ms := fun m =>
    Table.mem_foldl_put hlabels hnew
  refine ⟨fun m hm => (hmem m).mpr (.inl (hs.kept m hm)), fun m hm m' hm' hp => ?_, fun o ho => ?_⟩
  · rcases (hmem m).mp hm with hm | hm
    · rcases (hmem m').mp hm' with hm' | hm'
      · exact hs.distinct m hm m' hm' hp
      · exact (hpaths m' hm' m hm hp).elim
    · rcases (hmem m').mp hm' with hm' | hm'
      · exact (hpaths m hm m' hm' hp.symm).elim
      · exact hdistinct m hm m' hm' hp
  · refine .inr ?_
    rcases hs.labelled o ho with hp | ⟨m, hm, hp⟩
    · obtain ⟨m, hm, hpath⟩ := hcovers _ hp
      exact ⟨m, (hmem m).mpr hm, hpath⟩
    · exact ⟨m, (hmem m).mpr (.inl hm), hp⟩

theorem mapSound_fresh : (fresh : Store E).MapSound [] [] := by
  refine ⟨fun m hm => (nomatch hm), fun m hm m' hm' _ => ?_, fun o ho => (nomatch ho)⟩
  exact (List.mem_singleton.mp hm).trans (List.mem_singleton.mp hm').symm

end Store

/-! ## New paths -/

namespace Keys

/-- Going through accounts and keeping the higher one finds a highest. -/
theorem foldl_highest {f : Option AcctPathMapping → AcctPathMapping → Option AcctPathMapping}
    {accounts : List AcctPathMapping} {best r : Option AcctPathMapping}
    (hr : accounts.foldl f best = r) (hnone : ∀ a, f none a = some a)
    (hsome : ∀ b a,
      f (some b) a = if b.path.childAt 0 ≤ a.path.childAt 0 then some a else some b) :
    (∀ b, best = some b → ∃ e, r = some e ∧ b.path.childAt 0 ≤ e.path.childAt 0) ∧
    (∀ a ∈ accounts, ∃ e, r = some e ∧ a.path.childAt 0 ≤ e.path.childAt 0) ∧
    ∀ e, r = some e → e ∈ accounts ∨ best = some e := by
  subst hr
  induction accounts generalizing best with
  | nil =>
      refine ⟨fun b hb => ⟨b, hb, Nat.le_refl _⟩, fun a ha => (nomatch ha), fun e he => .inr he⟩
  | cons a accounts ih =>
      have hnext : ∃ b', f best a = some b' ∧ a.path.childAt 0 ≤ b'.path.childAt 0 ∧
          (∀ b, best = some b → b.path.childAt 0 ≤ b'.path.childAt 0) ∧
          (b' = a ∨ best = some b') := by
        cases best with
        | none => exact ⟨a, hnone a, Nat.le_refl _, fun b hb => (nomatch hb), .inl rfl⟩
        | some b =>
            by_cases h : b.path.childAt 0 ≤ a.path.childAt 0
            · refine ⟨a, (hsome b a).trans (if_pos h), Nat.le_refl _, fun c hc => ?_, .inl rfl⟩
              cases hc
              exact h
            · refine ⟨b, (hsome b a).trans (if_neg h), by omega, fun c hc => ?_, .inr rfl⟩
              cases hc
              exact Nat.le_refl _
      obtain ⟨b', hb', ha, hbest, hsource⟩ := hnext
      obtain ⟨hfrom, hall, hmem⟩ := @ih (some b')
      obtain ⟨e, he, hle⟩ := hfrom b' rfl
      rw [List.foldl_cons, hb']
      refine ⟨fun b hb => ⟨e, he, Nat.le_trans (hbest b hb) hle⟩, fun c hc => ?_, fun c hc => ?_⟩
      · rcases List.mem_cons.mp hc with rfl | hc
        · exact ⟨e, he, Nat.le_trans ha hle⟩
        · exact hall c hc
      · rcases hmem c hc with hc | hc
        · exact .inl (List.mem_cons_of_mem _ hc)
        · cases hc
          rcases hsource with rfl | hsource
          · exact .inl List.mem_cons_self
          · exact .inr hsource

theorem highestAccount_spec (accounts : List AcctPathMapping) :
    (∀ a ∈ accounts,
      ∃ e, highestAccount accounts = some e ∧ a.path.childAt 0 ≤ e.path.childAt 0) ∧
    ∀ e, highestAccount accounts = some e → e ∈ accounts := by
  obtain ⟨-, hall, hmem⟩ := foldl_highest (r := highestAccount accounts) rfl (fun _ => rfl)
    fun _ _ => rfl
  refine ⟨hall, fun e he => ?_⟩
  rcases hmem e he with hin | hnone
  · exact hin
  · cases hnone

/-- The path counted up from the highest one is new. -/
theorem nextAccountPath_new {accounts : List AcctPathMapping}
    (h : ∀ m ∈ accounts, m.path.childAt 0 + 1 < 2 ^ 32) :
    ∀ m ∈ accounts, m.path ≠ nextAccountPath accounts := by
  intro m hm heq
  obtain ⟨hall, hmem⟩ := highestAccount_spec accounts
  obtain ⟨e, he, hle⟩ := hall m hm
  have hlt := h e (hmem e he)
  have hpath : nextAccountPath accounts = e.path.setChild 0 (u32 (e.path.childAt 0 + 1)) := by
    unfold nextAccountPath
    rw [he]
  have hchild : (nextAccountPath accounts).childAt 0 = e.path.childAt 0 + 1 := by
    have hpos : 0 < e.path.path.length := by rw [e.path.path_length]; decide
    rw [hpath, u32_of_lt hlt]
    simp [Identifier.childAt, Identifier.setChild, hpos]
  rw [heq, hchild] at hle
  omega

end Keys

/-! ## The programs -/

/-- The label a section makes an account for. -/
def Hold.creates : Hold F E → Option Label
  | .call (.createAccountPath label) => some label
  | _ => none

/-- The paths a section restores accounts of. -/
def Hold.restores : Hold F E → List (Identifier × Nat)
  | .restorePaths found => found
  | _ => []

/-- What a section must meet for the account map to stay sound: an account is made
while the highest path can be counted up, and no label made up by a scan is in use. -/
def KeepsMap (label : Hold F E) (w : WalletBackend F E) : Prop :=
  (∀ l ∈ label.creates, (∀ m ∈ w.store.acctPaths.rows, m.label ≠ l) →
    ∀ m ∈ w.store.acctPaths.rows, m.path.childAt 0 + 1 < 2 ^ 32) ∧
  ∀ m ∈ Scan.newAccounts (w.store.acctPaths.rows.map (·.path)) w.store.acctPaths.rows.length
    label.restores, ∀ m' ∈ w.store.acctPaths.rows, m'.label ≠ m.label

instance (label : Hold F E) (w : WalletBackend F E) : Decidable (KeepsMap label w) :=
  inferInstanceAs (Decidable (_ ∧ _))

section Programs

variable [CommRing F] [AddCommGroup E] [Module F E] [DecidableEq E]

/-- Making an account, and the owner's scan. -/
inductive AccountProgram (env : Env F E) : WalletThread F E Unit → Prop
  | newAcctPath (label : Label) : AccountProgram env
      (Thread.atomic (.call (.createAccountPath label)) ((ApiCall.createAccountPath label).run env))
  | scan (fuel : Nat) (startHeight : Option Nat) (deleteUnconfirmed : Bool) :
      AccountProgram env (Owner.scan env Owner.lockedRestore fuel startHeight deleteUnconfirmed)

variable {env : Env F E} {base : List AcctPathMapping} {pending : List Identifier}

/-- The wallet's map is sound. -/
abbrev Sound (base : List AcctPathMapping) (pending : List Identifier) (m : WalletBackend F E) :
    Prop := m.store.MapSound base pending

omit [CommRing F] [AddCommGroup E] [Module F E] [DecidableEq E] in
theorem places_sound {α : Type} {x : WalletM F E α} (h : Eff.Moves WalletBackend.SamePlaces x) :
    Eff.Moves (Eff.Keeps (Sound base pending)) x :=
  h.mono fun _ _ hplaces hw => hw.of_places hplaces

namespace Keys

omit [CommRing F] [AddCommGroup E] [Module F E] [DecidableEq E] in
theorem run_newAcctPath_used {label : Label} {w : WalletBackend F E}
    (h : w.store.acctPaths.rows.any (·.label = label) = true) :
    newAcctPath label w = (.error (.AccountLabelAlreadyExists label), w) := by
  unfold newAcctPath
  rw [Eff.run_bind_ok (Eff.run_read w)]
  refine Eff.run_bind_error ?_
  rw [Eff.throwIf, if_pos h]
  rfl

omit [CommRing F] [AddCommGroup E] [Module F E] [DecidableEq E] in
theorem run_newAcctPath {label : Label} {w : WalletBackend F E}
    (h : ¬ w.store.acctPaths.rows.any (·.label = label) = true) :
    newAcctPath label w = (.ok (nextAccountPath w.store.acctPaths.rows),
      { w with store := w.store.saveAcctPath ⟨label, nextAccountPath w.store.acctPaths.rows⟩ }) := by
  unfold newAcctPath
  rw [Eff.run_bind_ok (Eff.run_read w),
    Eff.run_bind_ok (Eff.throwIf_eq_ok (u := ()).mpr ⟨h, rfl⟩)]
  rfl

omit [CommRing F] [AddCommGroup E] [Module F E] [DecidableEq E] in
/-- A path given out is not in use. -/
theorem nextAccountPath_unused {label : Label} {w : WalletBackend F E} (hw : Sound base [] w)
    (hkeeps : KeepsMap (.call (.createAccountPath label)) w)
    (h : ¬ w.store.acctPaths.rows.any (·.label = label) = true) :
    (∀ m ∈ w.store.acctPaths, m.label ≠ label ∧ m.path ≠ nextAccountPath w.store.acctPaths.rows) ∧
      ∀ o ∈ w.store.outputs, o.rootKeyId ≠ nextAccountPath w.store.acctPaths.rows := by
  have hlabels : ∀ m ∈ w.store.acctPaths.rows, m.label ≠ label := by
    intro m hm heq
    exact h (List.any_eq_true.mpr ⟨m, hm, decide_eq_true heq⟩)
  have hpaths := nextAccountPath_new (hkeeps.1 label rfl hlabels)
  refine ⟨fun m hm => ⟨hlabels m hm, hpaths m hm⟩, fun o ho heq => ?_⟩
  rcases hw.labelled o ho with hp | ⟨m, hm, hp⟩
  · cases hp
  · exact hpaths m hm (hp.trans heq)

omit [CommRing F] [AddCommGroup E] [Module F E] [DecidableEq E] in
theorem newAcctPath_sound {label : Label} {w : WalletBackend F E} (hw : Sound base [] w)
    (hkeeps : KeepsMap (.call (.createAccountPath label)) w) :
    Sound base [] (newAcctPath label w).2 := by
  by_cases h : w.store.acctPaths.rows.any (·.label = label) = true
  · rw [run_newAcctPath_used h]
    exact hw
  · obtain ⟨hnew, -⟩ := nextAccountPath_unused hw hkeeps h
    rw [run_newAcctPath h]
    refine Store.MapSound.addAccounts hw [⟨label, nextAccountPath w.store.acctPaths.rows⟩]
      (List.pairwise_singleton _ _)
      (fun m hm m' hm' => ?_) (fun m hm m' hm' => ?_) (fun m hm m' hm' _ => ?_)
      (fun p hp => (nomatch hp)) w.store.childIndex
    · obtain rfl := List.mem_singleton.mp hm
      exact (hnew m' hm').1
    · obtain rfl := List.mem_singleton.mp hm
      exact (hnew m' hm').2
    · exact (List.mem_singleton.mp hm).trans (List.mem_singleton.mp hm').symm

end Keys

namespace Scan

omit [CommRing F] [AddCommGroup E] [Module F E] [DecidableEq E] in
/-- Restoring an output, its path to get a label. -/
theorem restoreOutput_sound {now : Nat} {s : Store E} {o : OutputResult E}
    (hs : s.MapSound base pending) (ho : o.keyId.parentPath ∈ pending) :
    (restoreOutput now s o).MapSound base pending := by
  unfold restoreOutput
  refine Store.MapSound.save ?_ (.inl ho)
  exact hs.of_places (.of_eq rfl rfl)

omit [CommRing F] [AddCommGroup E] [Module F E] [DecidableEq E] in
theorem restoreOutputs_sound {now : Nat} {s : Store E} {os : List (OutputResult E)}
    (hs : s.MapSound base pending) (hos : ∀ o ∈ os, o.keyId.parentPath ∈ pending) :
    (os.foldl (restoreOutput now) s).MapSound base pending := by
  induction os generalizing s with
  | nil => exact hs
  | cons o os ih =>
      exact ih (restoreOutput_sound hs (hos o List.mem_cons_self)) fun o' ho' =>
        hos o' (List.mem_cons_of_mem o ho')

omit [CommRing F] [AddCommGroup E] [Module F E] [DecidableEq E] in
/-- Restoring the accounts of all paths that are to get one. -/
theorem restorePaths_sound {found : List (Identifier × Nat)} {w : WalletBackend F E}
    (hw : Sound base pending w) (hfound : (found.map Prod.fst).Nodup)
    (hpending : ∀ p ∈ pending, p ∈ found.map Prod.fst)
    (hkeeps : KeepsMap (.restorePaths found) w) :
    ∃ m, (restorePaths found).run w = (.ok (), m) ∧ Sound base [] m := by
  obtain ⟨f, hf⟩ := run_restorePaths found w
  refine ⟨_, hf, ?_⟩
  refine Store.MapSound.addAccounts hw _ (newAccounts_labels _ _) hkeeps.2 (fun m hm m' hm' hp => ?_)
    (fun m hm m' hm' => newAccounts_distinct hfound hm hm') (fun p hp => ?_) f
  · exact (newAccounts_path hm).2 (hp ▸ List.mem_map_of_mem (f := (·.path)) hm')
  · rcases newAccounts_covers (w.store.acctPaths.rows.map (·.path))
      w.store.acctPaths.rows.length (hpending p hp) with hin | ⟨m, hm, hpath⟩
    · obtain ⟨m, hm, hpath⟩ := List.mem_map.mp hin
      exact ⟨m, .inl hm, hpath⟩
    · exact ⟨m, .inr hm, hpath⟩

/-- The accounts are the given ones, and the map is sound. -/
def Stays (accounts : List AcctPathMapping) (base : List AcctPathMapping)
    (pending : List Identifier) (m : WalletBackend F E) : Prop :=
  m.store.acctPaths.rows = accounts ∧ Sound base pending m

variable {accounts : List AcctPathMapping} {w : WalletBackend F E}

omit [CommRing F] [AddCommGroup E] [Module F E] [DecidableEq E] in
theorem Stays.of_places {m m' : WalletBackend F E} (hm : Stays accounts base pending m)
    (h : m.SamePlaces m') : Stays accounts base pending m' :=
  ⟨by rw [h.1]; exact hm.1, hm.2.of_places h⟩

omit [CommRing F] [AddCommGroup E] [Module F E] [DecidableEq E] in
/-- A record of the snapshot is written back under a path that has its label still. -/
theorem unspendOutput_alone {o : OutputData E} (hw : Stays accounts base pending w)
    (ho : ∃ m ∈ accounts, m.path = o.rootKeyId) :
    (unspendOutput o).Alone KeepsMap (fun _ => Stays accounts base pending)
      (Sound base []) w := by
  refine (Thread.Alone.atomic (P := Stays accounts base pending) (fun _ => ?_) hw).andThen
    fun _ m hm => Thread.Alone.atomic (P := Stays accounts base pending) (fun _ => ?_) hm
  · exact Eff.Triple.modify fun m hm => hm.of_places (cancelTxLogEntry_places _ _)
  · refine Eff.Triple.modify fun m hm => ⟨hm.1, hm.2.save (.inr ?_)⟩
    obtain ⟨a, ha, hpath⟩ := ho
    rw [← hm.1] at ha
    exact ⟨a, ha, hpath⟩

omit [CommRing F] [AddCommGroup E] [Module F E] [DecidableEq E] in
theorem deleteUnconfirmedOutput_alone {o : OutputData E} (hw : Stays accounts base pending w) :
    (deleteUnconfirmedOutput o).Alone KeepsMap (fun _ => Stays accounts base pending)
      (Sound base []) w := by
  refine (Thread.Alone.atomic (P := Stays accounts base pending) (fun _ => ?_) hw).andThen
    fun _ m hm => Thread.Alone.atomic (P := Stays accounts base pending) (fun _ => ?_) hm
  · exact Eff.Triple.modify fun m hm => hm.of_places (cancelTxLogEntry_places _ _)
  · exact Eff.Triple.modify fun m hm => hm.of_places
      ⟨rfl, (Store.OutputsFrom.of_outputs rfl).delete _ _⟩

theorem mem_of_mem_chunks {α : Type} {n fuel : Nat} {l chunk : List α} {a : α}
    (h : chunk ∈ chunks n fuel l) (ha : a ∈ chunk) : a ∈ l := by
  induction fuel generalizing l with
  | zero => cases h
  | succ fuel ih =>
      unfold chunks at h
      by_cases hempty : l.isEmpty = true
      · rw [if_pos hempty] at h
        cases h
      · rw [if_neg hempty] at h
        rcases List.mem_cons.mp h with rfl | h
        · exact List.mem_of_mem_take ha
        · exact List.mem_of_mem_drop (ih h)

/-- The paths of the outputs restored are the ones found. -/
def parents (outputs : List (OutputResult E)) : List Identifier :=
  outputs.map fun o => o.keyId.parentPath

omit [CommRing F] [AddCommGroup E] [Module F E] [DecidableEq E] in
theorem restoreMissingOutputs_alone {outputs : List (OutputResult E)}
    (hw : Stays accounts base [] w) :
    (restoreMissingOutputs env outputs).Alone KeepsMap
      (fun found m => (found.map Prod.fst).Nodup ∧
        (∀ p ∈ parents outputs, p ∈ found.map Prod.fst) ∧ Stays accounts base (parents outputs) m)
      (Sound base []) w := by
  have hmono : Stays accounts base (parents outputs) w :=
    ⟨hw.1, hw.2.mono fun p hp => nomatch hp⟩
  refine (Thread.Alone.forEach hmono fun chunk hchunk m hm => ?_).andThen fun _ m hm => ?_
  · refine Thread.Alone.atomic (P := Stays accounts base (parents outputs)) (fun _ => ?_) hm
    refine Eff.Triple.bind (Q := fun _ => Stays accounts base (parents outputs))
      (fun m hm => hm) fun now => Eff.Triple.modify fun m hm => ⟨?_, ?_⟩
    · have hsame : ∀ (os : List (OutputResult E)) (s : Store E),
          (os.foldl (restoreOutput now) s).acctPaths = s.acctPaths := by
        intro os
        induction os with
        | nil => exact fun s => rfl
        | cons o os ih => exact fun s => ih (restoreOutput now s o)
      exact (congrArg Table.rows (hsame chunk m.store)).trans hm.1
    · exact restoreOutputs_sound hm.2 fun o ho =>
        List.mem_map_of_mem (f := fun o => o.keyId.parentPath) (mem_of_mem_chunks hchunk ho)
  · obtain ⟨hnodup, hmem⟩ := @foldl_noteParent _ outputs [] List.nodup_nil
    refine ⟨hnodup, fun p hp => (hmem p).mpr (.inl ?_), hm⟩
    obtain ⟨o, ho, rfl⟩ := List.mem_map.mp hp
    exact ⟨o, ho, rfl⟩

omit [CommRing F] [AddCommGroup E] [Module F E] in
/-- Repairing the wallet from a snapshot of it. -/
theorem repair_alone {all : Bool} {walletOutputs : List (Updater.OutputCommitMapping E)}
    {chainOuts : List (OutputResult E)} (hw : Stays accounts base [] w)
    (hsnapshot : ∀ wo ∈ walletOutputs, ∃ m ∈ accounts, m.path = wo.output.rootKeyId) :
    (repair env Owner.lockedRestore all walletOutputs chainOuts).Alone KeepsMap
      (fun _ => Sound base []) (Sound base []) w := by
  have hmatched : ∀ (status : OutputStatus) (o : OutputData E), o ∈ (chainOuts.filterMap fun deffo =>
      (((walletOutputs.find? fun wo => wo.commit = deffo.commit)).map (·.output)).filter
        fun o => o.status = status) → ∃ m ∈ accounts, m.path = o.rootKeyId := by
    intro status o ho
    obtain ⟨deffo, -, hfound⟩ := List.mem_filterMap.mp ho
    obtain ⟨hmap, -⟩ := Option.filter_eq_some_iff.mp hfound
    obtain ⟨wo, hwo, rfl⟩ := Option.map_eq_some_iff.mp hmap
    exact hsnapshot wo (List.mem_of_find?_eq_some hwo)
  have hlast : ∀ (found : List (Identifier × Nat)) (pending : List Identifier)
      (m : WalletBackend F E), (found.map Prod.fst).Nodup →
      (∀ p ∈ pending, p ∈ found.map Prod.fst) → Stays accounts base pending m →
      (Owner.lockedRestore (env.foundParentOrder.apply found)).Alone KeepsMap
        (fun _ => Sound base []) (Sound base []) m := by
    intro found pending m hnodup hpending hm hkeeps
    have hperm := (env.foundParentOrder.perm found).map Prod.fst
    obtain ⟨m', hrun, hm'⟩ := restorePaths_sound hm.2 (hperm.nodup_iff.mpr hnodup)
      (fun p hp => hperm.mem_iff.mpr (hpending p hp)) hkeeps
    refine ⟨fun b _ => ?_, fun e he => ?_⟩
    · rw [hrun]
      exact hm'
    · rw [hrun] at he
      cases he
  refine (Thread.Alone.forEach hw fun o ho m hm => unspendOutput_alone hm (hmatched _ o ho)).andThen
    fun _ m hm => ?_
  refine (restoreMissingOutputs_alone hm).andThen fun found m hm => ?_
  obtain ⟨hnodup, hpending, hm⟩ := hm
  cases all with
  | false => exact hlast found _ m hnodup hpending hm
  | true =>
      refine (Thread.Alone.forEach hm fun o ho m hm =>
        unspendOutput_alone hm (hmatched _ o ho)).andThen fun _ m hm => ?_
      refine (Thread.Alone.forEach hm fun o _ m hm =>
        deleteUnconfirmedOutput_alone hm).andThen fun _ m hm => ?_
      exact hlast found _ m hnodup hpending hm

omit [CommRing F] [AddCommGroup E] [Module F E] [DecidableEq E] in
/-- A section that leaves the places keeps a sound map. -/
theorem quiet_alone {α : Type} {label : Hold F E} {body : WalletM F E α}
    (h : Eff.Moves WalletBackend.SamePlaces body) (hw : Sound base [] w) :
    (Thread.atomic label body).Alone KeepsMap (fun _ => Sound base []) (Sound base []) w :=
  Thread.Alone.atomic (P := Sound base []) (fun _ => (places_sound h).keepsTriple) hw

/-- A scan of a height range. -/
theorem scanWith_alone {fuel batchStart batchEnd start stop : Nat} {all : Bool}
    {range : Option (Nat × Nat)} (hw : Sound base [] w) :
    (scanWith env Owner.lockedRestore fuel all batchStart batchEnd start stop range).Alone KeepsMap
      (fun _ => Sound base []) (Sound base []) w := by
  have htail : ∀ (total : Nat × Nat) (w : WalletBackend F E), Sound base [] w →
      (do
        let pmmrRange ← askNode env fun n =>
          n.heightRangeToPmmrIndices batchStart (some batchEnd)
        let page ← collectChainOutputs env pmmrRange.2 fuel pmmrRange.1
        let w ← Thread.atomic .snapshot Eff.read
        let walletOutputs := Updater.retrieveOutputs env.keychain w.store true none none
        repair env Owner.lockedRestore all walletOutputs page.1
        return (⟨batchEnd, "", pmmrRange.1, page.2⟩, total) :
          WalletThread F E (ScannedBlockInfo × Nat × Nat)).Alone KeepsMap
        (fun _ => Sound base []) (Sound base []) w := by
    intro total w hw
    refine (quiet_alone (ask_places _) hw).andThen fun pmmr w hw => ?_
    refine (Thread.MadeOf.alone (I := Sound base []) (S := fun β _ body => ∃ q, body = ask q) ?_
      (collectChainOutputs_made (fun α q => ⟨q, rfl⟩) _ _ _) hw).andThen fun page w hw => ?_
    · rintro β label body ⟨q, rfl⟩
      exact places_sound (ask_places q)
    refine (Thread.Alone.atomic (Q := fun s m => s = m ∧ Sound base [] m) (R := Sound base [])
      (P := Sound base []) (fun _ => Eff.Triple.read fun m hm => ⟨rfl, hm⟩) hw).andThen
      fun s m hm => ?_
    obtain ⟨rfl, hs⟩ := hm
    have hstays : Stays s.store.acctPaths.rows base [] s := ⟨rfl, hs⟩
    refine (repair_alone hstays fun wo hwo => ?_).andThen fun _ m hm => hm
    have hout : wo.output ∈ s.store.outputs := by
      unfold Updater.retrieveOutputs at hwo
      obtain ⟨o, ho, rfl⟩ := List.mem_map.mp hwo
      exact (List.mem_filter.mp (mem_sortByKey.mp ho)).1
    rcases hs.labelled _ hout with hp | ⟨a, ha, hpath⟩
    · cases hp
    · exact ⟨a, ha, hpath⟩
  cases range with
  | none => exact (quiet_alone (ask_places _) hw).andThen fun total w hw => htail total w hw
  | some r => exact htail r w hw

end Scan

namespace Owner

theorem scanBatches_alone {fuel start : Nat} {all : Bool} {tip : Nat × String}
    {saveProgress : ScannedBlockInfo → Store E → Store E}
    (hsave : ∀ info (s : Store E), s.SamePlaces (saveProgress info s)) {hs : List Nat}
    {range : Option (Nat × Nat)} {w : WalletBackend F E} (hw : Sound base [] w) :
    (scanBatches env lockedRestore fuel all start tip saveProgress hs range).Alone KeepsMap
      (fun _ => Sound base []) (Sound base []) w := by
  induction hs generalizing range w with
  | nil => exact hw
  | cons h hs ih =>
      refine (Scan.scanWith_alone hw).andThen fun r w hw => ?_
      obtain ⟨info, range⟩ := r
      exact (Scan.quiet_alone (commit_places fun s => hsave _ s) hw).andThen fun _ w hw => ih hw

theorem scan_alone {fuel : Nat} {start : Option Nat} {all : Bool} {w : WalletBackend F E}
    (hw : Sound base [] w) :
    (scan env lockedRestore fuel start all).Alone KeepsMap (fun _ => Sound base [])
      (Sound base []) w := by
  refine (Scan.quiet_alone (refreshActive_places env true) hw).andThen fun _ w hw => ?_
  refine (Scan.quiet_alone (ask_places _) hw).andThen fun tip w hw => ?_
  have hsave : ∀ info (s : Store E), s.SamePlaces (s.saveLastScannedBlock info) :=
    fun info s => .of_eq rfl rfl
  exact scanBatches_alone hsave hw

end Owner

/-- The wallets that making accounts and scanning lead to, one after the other. -/
abbrev AccountRun (env : Env F E) (allowed : Hold F E → WalletBackend F E → Prop) :=
  Sequential (AccountProgram env) allowed

theorem accountRun_sound {w w' : WalletBackend F E} (h : AccountRun env KeepsMap w w')
    (hw : Sound base [] w) : Sound base [] w' := by
  refine sequential_invariant (I := Sound base []) (fun t ht m hm => ?_) hw h
  cases ht with
  | newAcctPath label =>
      refine Thread.Alone.atomic (P := fun m' => m' = m) (fun hkeeps => ?_) rfl
      have hrun : Eff.Triple (fun m' => m' = m) (Keys.newAcctPath label)
          (fun _ => Sound base []) (Sound base []) := by
        rintro m' rfl
        have hsound := Keys.newAcctPath_sound hm hkeeps
        cases hr : Keys.newAcctPath label m' with
        | mk r m'' =>
            rw [hr] at hsound
            cases r <;> exact hsound
      exact hrun.bind fun _ => Eff.Triple.pure fun _ h => h
  | scan fuel start all => exact Owner.scan_alone hm

/-- From a fresh wallet, if accounts are made while the highest path can be counted
up and no label a scan makes up is in use: mappings stay, no two labels share a
path, the path of every output has a label, and a path given out is new. -/
theorem account_map_kept {w : WalletBackend F E} (h : AccountRun env KeepsMap .new w) :
    (∀ w', AccountRun env KeepsMap w w' → ∀ m ∈ w.store.acctPaths, m ∈ w'.store.acctPaths) ∧
    (∀ m ∈ w.store.acctPaths, ∀ m' ∈ w.store.acctPaths, m.path = m'.path → m = m') ∧
    (∀ o ∈ w.store.outputs, ∃ m ∈ w.store.acctPaths, m.path = o.rootKeyId) ∧
    ∀ label path w', KeepsMap (.call (.createAccountPath label)) w →
      Keys.newAcctPath label w = (.ok path, w') →
      (∀ m ∈ w.store.acctPaths, m.path ≠ path) ∧ ∀ o ∈ w.store.outputs, o.rootKeyId ≠ path := by
  have hw : Sound [] [] w := accountRun_sound h Store.mapSound_fresh
  refine ⟨fun w' h' => ?_, hw.distinct, fun o ho => ?_, fun label path w' hkeeps hrun => ?_⟩
  · have hbase : Sound w.store.acctPaths.rows [] w := ⟨fun m hm => hm, hw.distinct, hw.labelled⟩
    exact (accountRun_sound h' hbase).kept
  · rcases hw.labelled o ho with hp | hm
    · cases hp
    · exact hm
  · by_cases hused : w.store.acctPaths.rows.any (·.label = label) = true
    · rw [Keys.run_newAcctPath_used hused] at hrun
      cases hrun
    · obtain ⟨hnew, houtputs⟩ := Keys.nextAccountPath_unused hw hkeeps hused
      rw [Keys.run_newAcctPath hused] at hrun
      cases hrun
      exact ⟨fun m hm => (hnew m hm).2, houtputs⟩

end Programs

/-! ## A label the scan makes up -/

namespace SampleAccounts

/-- An output under the first key of the account `m/2/0`. -/
def found : ChainOutput (ℤ × ℤ) :=
  ⟨sampleKeychain.commit 5 (.deriveKeyId 3 2 0 0 0), 0, false, 90, 3⟩

def env : Env ℤ (ℤ × ℤ) := sampleEnv fun _ => sampleNode [found] []

def create (label : String) : WalletThread ℤ (ℤ × ℤ) Unit :=
  Thread.atomic (.call (.createAccountPath label.toList))
    ((ApiCall.createAccountPath label.toList).run env)

def scan : WalletThread ℤ (ℤ × ℤ) Unit := Owner.scan env Owner.lockedRestore 2 none false

/-- A wallet with a second account. -/
def named (label : String) : WalletBackend ℤ (ℤ × ℤ) := ((create label).run .new).2

/-- The same, once it has found an output of a third. -/
def scanned (label : String) : WalletBackend ℤ (ℤ × ℤ) := (scan.run (named label)).2

theorem named_reached {allowed : Hold ℤ (ℤ × ℤ) → WalletBackend ℤ (ℤ × ℤ) → Prop} {label : String}
    (h : (create label).AllowedRun allowed .new) : AccountRun env allowed .new (named label) :=
  Sequential.refl.tail (.newAcctPath label.toList) h

theorem scanned_reached {allowed : Hold ℤ (ℤ × ℤ) → WalletBackend ℤ (ℤ × ℤ) → Prop}
    {label : String} (h : scan.AllowedRun allowed (named label)) :
    AccountRun env allowed (named label) (scanned label) :=
  Sequential.refl.tail (.scan 2 none false) h

/-- A user's account `account_2` loses its path to the account a scan finds. -/
theorem scan_takes_label :
    AccountRun env (fun _ _ => True) .new (named "account_2") ∧
      AccountRun env (fun _ _ => True) (named "account_2") (scanned "account_2") ∧
      (named "account_2").store.getAcctPath "account_2".toList
        = some ⟨"account_2".toList, .deriveKeyId 2 1 0 0 0⟩ ∧
      (scanned "account_2").store.getAcctPath "account_2".toList
        = some ⟨"account_2".toList, .deriveKeyId 2 2 0 0 0⟩ :=
  ⟨named_reached (Thread.allowedRun_of_forall (fun _ _ => trivial) _ _),
    scanned_reached (Thread.allowedRun_of_forall (fun _ _ => trivial) _ _),
    by decide +kernel, by decide +kernel⟩

theorem account_map_kept_sample :
    AccountRun env KeepsMap .new (scanned "savings") ∧
      ∀ o ∈ (scanned "savings").store.outputs,
        ∃ m ∈ (scanned "savings").store.acctPaths, m.path = o.rootKeyId := by
  have hnamed : AccountRun env KeepsMap .new (named "savings") :=
    named_reached (by decide +kernel)
  have hallowed : scan.AllowedRun KeepsMap (named "savings") := by decide +kernel
  have hscanned : AccountRun env KeepsMap .new (scanned "savings") :=
    hnamed.tail (.scan 2 none false) hallowed
  exact ⟨hscanned, (account_map_kept hscanned).2.2.1⟩

end SampleAccounts

end GrinWallet
