import GrinWallet.Exchange.Receive
import GrinWallet.Runs.Steps

/-! # What the parts of a call leave alone

Selecting coins and building a transaction take child keys and ask questions;
every table of records stays as it is.
-/

namespace GrinWallet

open Effect WalletBackend OrderedTable

variable {F E : Type}

namespace WalletBackend

/-- Only child keys were taken and questions asked. -/
def OnlyKeys (w w' : WalletBackend F E) : Prop :=
  ∃ childIndex tick, w' = { w with store := { w.store with childIndex := childIndex }, tick := tick }

instance : Std.Refl (OnlyKeys (F := F) (E := E)) := ⟨fun w => ⟨w.store.childIndex, w.tick, rfl⟩⟩

instance : IsTrans (WalletBackend F E) OnlyKeys := by
  refine ⟨fun w w' w'' h h' => ?_⟩
  obtain ⟨f, t, rfl⟩ := h
  obtain ⟨f', t', rfl⟩ := h'
  exact ⟨f', t', rfl⟩

/-- A property of the tables of a wallet. -/
abbrev Tables (I : Store E → Prop) (m : WalletBackend F E) : Prop := I m.store

/-- An invariant of the records stays. -/
theorem OnlyKeys.keeps {I : Store E → Prop} (hI : ∀ s f, I s → I { s with childIndex := f })
    (w w' : WalletBackend F E) (h : OnlyKeys w w') : Eff.Keeps (Tables I) w w' := by
  obtain ⟨f, t, rfl⟩ := h
  exact hI w.store f

theorem ask_onlyKeys {α : Type} (answer : Nat → Except Error α) :
    Eff.Moves (OnlyKeys (F := F) (E := E)) (ask answer) :=
  fun w => ⟨w.store.childIndex, w.tick + 1, rfl⟩

theorem nextChild_onlyKeys : Eff.Moves (OnlyKeys (F := F) (E := E)) nextChild := by
  intro w
  by_cases h : 4 ≤ w.parentKeyId.depth
  · rw [run_nextChild_deep h]
    exact Std.Refl.refl w
  · rw [run_nextChild (by omega)]
    exact ⟨_, w.tick, rfl⟩

theorem newContext_onlyKeys (env : Env F E) (p : Identifier) :
    Eff.Moves (OnlyKeys (F := F) (E := E)) (newContext env p) :=
  (ask_onlyKeys _).bind fun _ => Eff.Moves.pure _

theorem accountOrActive_onlyKeys (name : Option Label) :
    Eff.Moves (OnlyKeys (F := F) (E := E)) (accountOrActive name) := by
  intro w
  rw [run_accountOrActive]
  exact Std.Refl.refl w

/-- The tables, and the next question of a wallet. -/
structure At (s : Store E) (tick : Nat) (m : WalletBackend F E) : Prop where
  store : m.store = s
  tick : m.tick = tick

/-- The answer to a question is the one of its tick. -/
theorem ask_at {α : Type} {answer : Nat → Except Error α} {s : Store E} {tick : Nat}
    {R : WalletBackend F E → Prop} (hR : ∀ m, m.store = s → R m) :
    Eff.Triple (At s tick) (ask answer) (fun a m => answer tick = .ok a ∧ At s (tick + 1) m) R := by
  intro m hm
  obtain ⟨rfl, rfl⟩ := hm
  cases h : answer m.tick with
  | error e =>
      simp only [ask, h]
      exact hR _ rfl
  | ok a => simp [ask, h, At.mk]

/-- A batch leaves the tables it returns, or those it found. -/
theorem batch_ends {α : Type} {f : Store E → Except Error (α × Store E)} {s : Store E}
    {J : Store E → Prop} (hs : J s) (hok : ∀ a s', f s = .ok (a, s') → J s') :
    Eff.Triple (fun m : WalletBackend F E => m.store = s) (batch f) (fun _ m => J m.store)
      (fun m => J m.store) := by
  rintro m rfl
  cases h : f m.store with
  | error e => simpa [batch, Eff.transact, h] using hs
  | ok r =>
      obtain ⟨a, s'⟩ := r
      simpa [batch, Eff.transact, h] using hok a s' h

/-- A property each success of a batch keeps is kept by the batch. -/
theorem batch_tables {α : Type} {f : Store E → Except Error (α × Store E)} {I : Store E → Prop}
    (h : ∀ s a s', I s → f s = .ok (a, s') → I s') :
    Eff.Moves (Eff.Keeps (Tables (F := F) I)) (batch f) := by
  intro m hm
  have hends := batch_ends (F := F) (f := f) hm (fun a s' hf => h m.store a s' hm hf) m rfl
  cases hr : batch f m with
  | mk r m' => cases r <;> simpa [hr] using hends

theorem commit_tables {f : Store E → Store E} {I : Store E → Prop} (h : ∀ s, I s → I (f s)) :
    Eff.Moves (Eff.Keeps (Tables (F := F) I)) (commit f) := fun m hm => h m.store hm

end WalletBackend

/-- A property of the records of the wallet: outputs, log, and the log ids in use. -/
def OfRecords (I : Store E → Prop) : Prop :=
  ∀ s s', s'.outputs = s.outputs → s'.txLog = s.txLog → s'.txLogId = s.txLogId → I s → I s'

namespace Selection

theorem deriveChange_onlyKeys (amounts : List Nat) :
    Eff.Moves (OnlyKeys (F := F) (E := E)) (deriveChange amounts) := by
  induction amounts with
  | nil => exact Eff.Moves.pure _
  | cons a as ih => exact nextChild_onlyKeys.bind fun _ => ih.bind fun _ => Eff.Moves.pure _

theorem inputsAndChange_onlyKeys (coins : List (OutputData E)) (amount fee n : Nat) (all : Bool) :
    Eff.Moves (OnlyKeys (F := F)) (inputsAndChange coins amount fee n all) := by
  refine Eff.Moves.ite (fun _ => Eff.Moves.pure _) fun _ => ?_
  refine Eff.Moves.ite (fun _ => Eff.Moves.throw_bind _ _) fun _ => ?_
  refine Eff.Moves.ite (fun _ => Eff.Moves.throw_bind _ _) fun _ => ?_
  exact (deriveChange_onlyKeys _).bind fun _ => Eff.Moves.pure _

theorem selectSendTx_onlyKeys (C : Consensus F E)
    (amount currentHeight minimumConfirmations maxOutputs changeOutputs : Nat) (inc all : Bool)
    (p : Identifier) (b : Bool) :
    Eff.Moves (OnlyKeys (E := E)) (selectSendTx C amount inc currentHeight minimumConfirmations
      maxOutputs changeOutputs all p b) := by
  refine Eff.Moves.read.bind fun w => (Eff.Moves.ofExcept _).bind fun sel => ?_
  obtain ⟨coins, total, amount, fee⟩ := sel
  refine (inputsAndChange_onlyKeys _ _ _ _ _).bind fun r => ?_
  obtain ⟨parts, change⟩ := r
  exact Eff.Moves.pure _

variable [CommRing F] [AddCommGroup E] [Module F E] [DecidableEq E]

theorem buildSendTx_onlyKeys (env : Env F E) (slate : Slate F E)
    (currentHeight minimumConfirmations maxOutputs changeOutputs : Nat) (all : Bool)
    (fixedFee : Option Nat) (p : Identifier) (inc : Bool) :
    Eff.Moves OnlyKeys (buildSendTx env slate currentHeight minimumConfirmations maxOutputs
      changeOutputs all fixedFee p inc) := by
  refine (selectSendTx_onlyKeys _ _ _ _ _ _ _ _ _ _).bind fun sel => ?_
  obtain ⟨elems, inputs, change, fee⟩ := sel
  refine (Eff.Moves.throwIf _).bind fun _ => (Eff.Moves.throwIf _).bind fun _ => ?_
  refine (Eff.Moves.ofExcept _).bind fun feeFields => (Eff.Moves.ofExcept _).bind fun s => ?_
  exact (newContext_onlyKeys env p).bind fun _ => Eff.Moves.pure _

end Selection

namespace Tx

variable [CommRing F] [AddCommGroup E] [Module F E] [DecidableEq E]

omit [AddCommGroup E] [Module F E] [DecidableEq E] in
theorem newTxSlate_onlyKeys (env : Env F E) (amount : Nat) (isInvoice : Bool) (n : Nat)
    (ttl : Option Nat) : Eff.Moves OnlyKeys (newTxSlate env amount isInvoice n ttl) := by
  refine (ask_onlyKeys _).bind fun tip => ?_
  obtain ⟨height, hash⟩ := tip
  exact (ask_onlyKeys _).bind fun id => Eff.Moves.pure _

variable {I : Store E → Prop} {P : WalletBackend F E → Prop} {env : Env F E} {args : InitTxArgs}
  {p : Identifier}

/-- Adding inputs ends as its refresh does. -/
theorem addInputsToSlate_ends (hI : OfRecords I)
    (hrefresh : Eff.Triple P (Eff.runIf args.refreshOutputsFromNode
      (Updater.refreshOutputs env p false)) (fun _ => Tables I) (Tables I))
    (slate : Slate F E) (height : Nat) (isInitiator inc : Bool) :
    Eff.Triple P (addInputsToSlate env slate height args p isInitiator inc)
      (fun _ => Tables I) (Tables I) := by
  refine hrefresh.bind fun _ => Eff.Moves.keepsTriple (I := Tables I) ?_
  refine Eff.Moves.mono (R := OnlyKeys) ?_ (OnlyKeys.keeps fun s _ => hI s _ rfl rfl rfl)
  refine (Selection.buildSendTx_onlyKeys _ _ _ _ _ _ _ _ _ _).bind fun r => ?_
  obtain ⟨slate, context⟩ := r
  cases isInitiator with
  | true => exact Eff.Moves.pure _
  | false => exact (Eff.Moves.ofExcept _).bind fun s => Eff.Moves.pure _

/-- A late-locked send ends as its refresh does. -/
theorem createLateLockContext_ends (hI : OfRecords I)
    (hrefresh : Eff.Triple P (Eff.runIf args.refreshOutputsFromNode
      (Updater.refreshOutputs env p false)) (fun _ => Tables I) (Tables I))
    (slate : Slate F E) (height : Nat) :
    Eff.Triple P (createLateLockContext env slate height args p)
      (fun _ => Tables I) (Tables I) := by
  refine hrefresh.bind fun _ => Eff.Moves.keepsTriple (I := Tables I) ?_
  refine Eff.Moves.mono (R := OnlyKeys) ?_ (OnlyKeys.keeps fun s _ => hI s _ rfl rfl rfl)
  refine Eff.Moves.read.bind fun w => (Eff.Moves.ofExcept _).bind fun sel => ?_
  obtain ⟨coins, total, amount, fee⟩ := sel
  refine (Eff.Moves.ofExcept _).bind fun feeFields => ?_
  exact (newContext_onlyKeys env p).bind fun c => Eff.Moves.pure _

/-- An estimate ends as its refresh does. -/
theorem estimateSendTx_ends {tick : Nat} {s : Store E} (hs : I s)
    (hrefresh : Eff.Triple (At s (tick + 1)) (Eff.runIf args.refreshOutputsFromNode
      (Updater.refreshOutputs env p false)) (fun _ => Tables I) (Tables I)) :
    Eff.Triple (At s tick) (estimateSendTx env args p) (fun _ => Tables I) (Tables I) := by
  have hstay : ∀ m : WalletBackend F E, m.store = s → I m.store := by
    rintro m rfl
    exact hs
  refine (ask_at hstay).bind fun tip => Eff.Triple.and_left fun _ => ?_
  obtain ⟨height, hash⟩ := tip
  refine hrefresh.bind fun _ => Eff.Triple.read_bind fun w _ => ?_
  refine Eff.Triple.bind (Q := fun _ => Tables I)
    (Eff.Triple.ofExcept (fun _ _ _ h => h) fun _ h => h) fun sel => ?_
  obtain ⟨coins, total, amount, fee⟩ := sel
  exact Eff.Triple.pure fun _ h => h

end Tx

theorem Updater.coinbaseKey_onlyKeys (keyId : Option Identifier) :
    Eff.Moves (OnlyKeys (F := F) (E := E)) (coinbaseKey keyId) := by
  refine Eff.Moves.read.bind fun w => ?_
  cases keyId with
  | none => exact nextChild_onlyKeys
  | some keyId =>
      simp only
      cases w.store.get keyId none with
      | ok o => exact Eff.Moves.pure _
      | error e => exact nextChild_onlyKeys

namespace Owner

variable [CommRing F] [AddCommGroup E] [Module F E] [DecidableEq E]

variable {I : Store E → Prop} {env : Env F E} {w : WalletBackend F E}

/-- A refresh that may be left out ends as it does when it runs. -/
theorem refreshIf_ends {s : Store E} {tick : Nat} {p : Identifier} {c : Prop} [Decidable c]
    (hs : I s) (hrefresh : c → Eff.Triple (At s tick) (Updater.refreshOutputs env p false)
      (fun _ => Tables I) (Tables I)) :
    Eff.Triple (At s tick) (Eff.runIf c (Updater.refreshOutputs env p false))
      (fun _ => Tables I) (Tables I) := by
  refine Eff.Triple.ite hrefresh fun _ => Eff.Triple.pure fun m hm => ?_
  obtain ⟨rfl, -⟩ := hm
  exact hs

omit [CommRing F] [AddCommGroup E] [Module F E] [DecidableEq E] in
theorem saveContext_tables (hI : OfRecords I) (K : Keychain F E) (slateId : Uuid)
    (c : Context E) :
    Eff.Triple (Tables I) (commit fun s => s.savePrivateContext K slateId c)
      (fun _ : Unit => Tables (F := F) I) (Tables I) :=
  Eff.Triple.modify fun m hm => hI m.store _ rfl rfl rfl hm

/-- Initiating a send ends as its refresh does. -/
theorem initSendTx_tables (hI : OfRecords I) (h : I w.store) (args : InitTxArgs)
    (hrefresh : args.refreshOutputsFromNode = true → Eff.Triple (At w.store (w.tick + 3))
      (Updater.refreshOutputs env (w.accountNamed args.srcAcctName) false) (fun _ => Tables I)
      (Tables I)) :
    Eff.Triple (fun m => m = w) (initSendTx env args) (fun _ => Tables I) (Tables I) := by
  have hstay : ∀ m : WalletBackend F E, m.store = w.store → I m.store := by
    intro m hm
    rw [hm]
    exact h
  refine (Eff.Triple.throwIf fun m hm => by rw [hm]; exact h).bind fun _ => ?_
  refine Eff.Triple.bind (Q := fun p m => p = w.accountNamed args.srcAcctName ∧
    At w.store w.tick m) ?_ fun p => Eff.Triple.and_left fun hp => ?_
  · rintro m ⟨rfl, -⟩
    rw [run_accountOrActive]
    exact ⟨rfl, rfl, rfl⟩
  subst hp
  refine Eff.Triple.bind (Q := fun _ => At w.store (w.tick + 2)) ?_ fun slate => ?_
  · refine (ask_at hstay).bind fun tip => Eff.Triple.and_left fun _ => ?_
    obtain ⟨height, hash⟩ := tip
    exact (ask_at hstay).bind fun id => Eff.Triple.and_left fun _ => Eff.Triple.pure fun _ hm => hm
  refine Eff.Triple.ite (fun _ => ?_) fun _ => ?_
  · refine (Tx.estimateSendTx_ends h (refreshIf_ends h hrefresh)).bind fun r => ?_
    obtain ⟨total, fee⟩ := r
    exact (Eff.Triple.ofExcept (fun _ _ _ hm => hm) fun _ hm => hm).bind fun _ =>
      Eff.Triple.pure fun _ hm => hm
  refine (ask_at hstay).bind fun tip => Eff.Triple.and_left fun _ => ?_
  obtain ⟨height, hash⟩ := tip
  refine Eff.Triple.bind (Q := fun _ => Tables I) ?_ fun r => ?_
  · exact Eff.Triple.ite (fun _ => Tx.createLateLockContext_ends hI (refreshIf_ends h hrefresh) _ _)
      fun _ => Tx.addInputsToSlate_ends hI (refreshIf_ends h hrefresh) _ _ _ _
  obtain ⟨slate, context⟩ := r
  obtain ⟨slate₂, context₂⟩ := withProofRequest env.keychain (w.accountNamed args.srcAcctName)
    args.paymentProofRecipientAddress slate context
  exact (saveContext_tables hI _ _ _).bind fun _ => Eff.Triple.pure fun _ hm => hm

/-- Paying an invoice ends as its refresh does. -/
theorem processInvoiceTx_tables (hI : OfRecords I) (h : I w.store) (slate : Slate F E)
    (args : InitTxArgs)
    (hrefresh : args.refreshOutputsFromNode = true → Eff.Triple (At w.store (w.tick + 1))
      (Updater.refreshOutputs env (w.accountNamed args.srcAcctName) false) (fun _ => Tables I)
      (Tables I)) :
    Eff.Triple (fun m => m = w) (processInvoiceTx env slate args) (fun _ => Tables I)
      (Tables I) := by
  have hstay : ∀ m : WalletBackend F E, m.store = w.store → I m.store := by
    intro m hm
    rw [hm]
    exact h
  refine Eff.Triple.bind (Q := fun _ m => m = w) ?_ fun _ => ?_
  · rintro m rfl
    by_cases hexpired : Expired m slate
    · rw [run_checkTtl_expired hexpired]
      exact h
    · rw [run_checkTtl hexpired]
  refine Eff.Triple.bind (Q := fun p m => p = w.accountNamed args.srcAcctName ∧
    At w.store w.tick m) ?_ fun p => Eff.Triple.and_left fun hp => ?_
  · rintro m rfl
    rw [run_accountOrActive]
    exact ⟨rfl, rfl, rfl⟩
  subst hp
  refine Eff.Triple.read_bind fun w₁ hw₁ => ?_
  refine Eff.Triple.bind (Q := fun _ => At w.store w.tick)
    (Eff.Triple.ofExcept (fun _ _ _ hm => hm) fun m hm => hstay m hm.store) fun _ => ?_
  refine (ask_at hstay).bind fun tip => Eff.Triple.and_left fun _ => ?_
  obtain ⟨height, hash⟩ := tip
  refine (Tx.addInputsToSlate_ends hI (refreshIf_ends h hrefresh) _ _ _ _).bind fun r => ?_
  obtain ⟨slate', context⟩ := r
  refine (Eff.Triple.ofExcept (fun _ _ _ hm => hm) fun _ hm => hm).bind fun excess => ?_
  refine Eff.Triple.read_bind fun w₂ _ => ?_
  refine (Eff.Triple.ofExcept (fun _ _ _ hm => hm) fun _ hm => hm).bind fun slate'' => ?_
  exact (saveContext_tables hI _ _ _).bind fun _ => Eff.Triple.pure fun _ hm => hm

end Owner

/-! ## Restoring accounts -/

namespace Scan

variable [CommRing F] [AddCommGroup E] [Module F E] [DecidableEq E]

/-- The sections that restore accounts. -/
inductive RestoreSection : (β : Type) → Hold F E → WalletM F E β → Prop
  | read (label : Hold F E) : RestoreSection (WalletBackend F E) label Eff.read
  | account (label : Hold F E) (name : Label) (path : Identifier) :
      RestoreSection Unit label (commit (Keys.setAcctPath name path))
  | index (label : Hold F E) (path : Identifier) (n : Nat) :
      RestoreSection Unit label (commit (raiseChildIndex path n))

omit [CommRing F] [AddCommGroup E] [Module F E] [DecidableEq E] in
theorem restoreFound_made (accounts : List Identifier) (index : Nat)
    (found : List (Identifier × Nat)) :
    (restoreFound (F := F) (E := E) accounts index found).MadeOf RestoreSection := by
  induction found generalizing index with
  | nil => trivial
  | cons p found ih =>
      obtain ⟨path, n⟩ := p
      unfold restoreFound
      by_cases h : path ∈ accounts
      · rw [if_pos h]
        exact (Sections.Thread.MadeOf.atomic (.index _ path n)).andThen fun _ => ih index
      · rw [if_neg h]
        refine (Sections.Thread.MadeOf.atomic (.account _ _ path)).andThen fun _ => ?_
        exact (Sections.Thread.MadeOf.atomic (.index _ path n)).andThen fun _ => ih (index + 1)

omit [CommRing F] [AddCommGroup E] [Module F E] [DecidableEq E] in
theorem restorePaths_made (found : List (Identifier × Nat)) :
    (restorePaths (F := F) (E := E) found).MadeOf RestoreSection :=
  (Sections.Thread.MadeOf.atomic (.read _)).andThen fun _ => restoreFound_made _ _ found

omit [CommRing F] [AddCommGroup E] [Module F E] [DecidableEq E] in
/-- Restoring accounts leaves the records. -/
theorem restorePaths_tables {I : Store E → Prop} (hI : OfRecords I)
    (found : List (Identifier × Nat)) :
    Eff.Moves (Eff.Keeps (Tables (F := F) I)) (restorePaths found).run := by
  refine fun w hw => (restorePaths_made found).run (I := Tables I) ?_ hw
  intro β label body m h hm
  cases h with
  | read => exact hm
  | account label name path => exact hI m.store _ rfl rfl rfl hm
  | index label path n =>
      have hsame : (raiseChildIndex path n m.store).outputs = m.store.outputs ∧
          (raiseChildIndex path n m.store).txLog = m.store.txLog ∧
          (raiseChildIndex path n m.store).txLogId = m.store.txLogId := by
        unfold raiseChildIndex
        by_cases h : n ≥ m.store.childIndex path
        · rw [if_pos h]
          exact ⟨rfl, rfl, rfl⟩
        · rw [if_neg h]
          exact ⟨rfl, rfl, rfl⟩
      exact hI m.store _ hsame.1 hsame.2.1 hsame.2.2 hm

end Scan

end GrinWallet
