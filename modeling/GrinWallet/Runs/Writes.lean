import GrinWallet.Exchange.Retry
import GrinWallet.Runs.Frame

/-! # What a call writes

The calls that lock, receive and complete a transaction change the tables by
four kinds of writes. An invariant of the tables that each kind keeps holds
after every such call, whether it returns or fails.
-/

namespace GrinWallet

open Effect WalletBackend OrderedTable

variable {F E : Type}

/-- A log record with what a later step of its transaction fills in. -/
def TxLogEntry.Amended (t t' : TxLogEntry E) : Prop :=
  ∃ state excess proof, t' = { t with
    txSlateState := state, kernelExcess := excess, paymentProof := proof }

variable [CommRing F] [AddCommGroup E] [Module F E] [DecidableEq E]

/-- One write of a call to the tables. -/
inductive TableWrite (K : Keychain F E) : Store E → Store E → Prop
  | keys (s : Store E) (childIndex : Identifier → Nat) (contexts : Uuid → Option (Context E)) :
      TableWrite K s { s with childIndex := childIndex, contexts := contexts }
  | lock {slate : Slate F E} {height : Nat} {c : Context E} {excess : Option E} {now : Nat}
      {s s' : Store E} {u : Unit}
      (h : Selection.lockBatch K slate height c excess now s = .ok (u, s')) : TableWrite K s s'
  | receive (slate : Slate F E) (height : Nat) (p keyId : Identifier) (now : Nat) (s : Store E) :
      TableWrite K s (Selection.recipientBatch K slate height p keyId now s).2
  | amend {s : Store E} {t t' : TxLogEntry E} (ht : t ∈ s.txLogIter) (h : t.Amended t')
      (p : Identifier) : TableWrite K s (s.saveTxLogEntry t' p)

/-- A number of writes. -/
abbrev TableWrites (K : Keychain F E) (w w' : WalletBackend F E) : Prop :=
  Relation.ReflTransGen (TableWrite K) w.store w'.store

instance (K : Keychain F E) : Std.Refl (TableWrites K) := ⟨fun _ => .refl⟩

instance (K : Keychain F E) : IsTrans (WalletBackend F E) (TableWrites K) :=
  ⟨fun _ _ _ h h' => h.trans h'⟩

variable {K : Keychain F E}

/-- An invariant each write keeps is one all of them keep. -/
theorem TableWrites.keeps {I : Store E → Prop} (hI : ∀ s s', TableWrite K s s' → I s → I s')
    (w w' : WalletBackend F E) (h : TableWrites K w w') : Eff.Keeps (Tables I) w w' := by
  have hall : ∀ s', Relation.ReflTransGen (TableWrite K) w.store s' → I w.store → I s' := by
    intro s' hs'
    induction hs' with
    | refl => exact id
    | tail _ hstep ih => exact fun hw => hI _ _ hstep (ih hw)
  exact hall w'.store h

omit [CommRing F] [AddCommGroup E] [Module F E] [DecidableEq E] in
theorem mem_txLogIter_self (s : Store E) (t : TxLogEntry E) (p : Identifier) :
    t ∈ (s.saveTxLogEntry t p).txLogIter := by
  have hmem : (p, t) ∈ (s.saveTxLogEntry t p).txLog := Table.mem_put.mpr (.inl rfl)
  exact List.mem_map_of_mem (f := Prod.snd) hmem

namespace WalletBackend

theorem OnlyKeys.writes (w w' : WalletBackend F E) (h : OnlyKeys w w') : TableWrites K w w' := by
  obtain ⟨f, t, rfl⟩ := h
  exact .single (.keys w.store f w.store.contexts)

theorem commit_writes {f : Store E → Store E} (h : ∀ s, TableWrite K s (f s)) :
    Eff.Moves (TableWrites K) (commit f) := fun m => .single (h m.store)

theorem batch_writes {α : Type} {f : Store E → Except Error (α × Store E)}
    (h : ∀ s a s', f s = .ok (a, s') → TableWrite K s s') :
    Eff.Moves (TableWrites K) (batch f) := by
  intro m
  have hends := batch_ends (F := F) (f := f) (s := m.store)
    (J := Relation.ReflTransGen (TableWrite K) m.store) .refl
    (fun a s' hf => .single (h m.store a s' hf)) m rfl
  cases hr : batch f m with
  | mk r m' => cases r <;> simpa [hr] using hends

end WalletBackend

/-! ## The calls -/

namespace Selection

theorem lockTxContext_writes (env : Env F E) (slate : Slate F E) (height : Nat) (c : Context E)
    (excess : Option E) :
    Eff.Moves (TableWrites env.keychain) (lockTxContext env slate height c excess) := by
  refine ((ask_onlyKeys _).mono OnlyKeys.writes).bind fun now => ?_
  refine (batch_writes fun s u s' h => .lock h).bind fun _ => ?_
  exact (Eff.Moves.ofExcept _).bind fun tx => Eff.Moves.modify fun m => .refl

/-- Receiving leaves the record it made in the log. -/
theorem buildRecipientOutput_writes (env : Env F E) (slate : Slate F E) (height : Nat)
    (p : Identifier) (w : WalletBackend F E) :
    Eff.Triple (fun m => m = w) (buildRecipientOutput env slate height p)
      (fun r m => TableWrites env.keychain w m ∧ r.2.2.2 ∈ m.store.txLogIter)
      (TableWrites env.keychain w) := by
  have hkeys : ∀ {α : Type} {x : WalletM F E α}, Eff.Moves OnlyKeys x →
      Eff.Triple (TableWrites env.keychain w) x (fun _ => TableWrites env.keychain w)
        (TableWrites env.keychain w) := fun hx => (hx.mono OnlyKeys.writes).toTriple w
  refine Eff.Triple.bind (Q := fun _ => TableWrites env.keychain w) ?_ fun key => ?_
  · exact (hkeys nextChild_onlyKeys).consequence (fun m hm => hm ▸ .refl) (fun _ _ h => h)
      fun _ h => h
  refine (hkeys (Eff.Moves.ofExcept _)).bind fun slate' => ?_
  refine (hkeys (newContext_onlyKeys env p)).bind fun c => ?_
  refine (hkeys (ask_onlyKeys _)).bind fun now => ?_
  refine Eff.Triple.bind (Q := fun t m => TableWrites env.keychain w m ∧ t ∈ m.store.txLogIter)
    ?_ fun t => Eff.Triple.pure fun m hm => hm
  intro m hm
  exact ⟨hm.tail (.receive slate' height p key now m.store), mem_txLogIter_self _ _ _⟩

end Selection

namespace Owner

theorem txLockOutputs_writes (env : Env F E) (slate : Slate F E) :
    Eff.Moves (TableWrites env.keychain) (txLockOutputs env slate) := by
  refine Eff.Moves.read.bind fun w => (Eff.Moves.ofExcept _).bind fun c => ?_
  refine (Eff.Moves.ofExcept _).bind fun sl => ?_
  refine ((ask_onlyKeys _).mono OnlyKeys.writes).bind fun tip => ?_
  obtain ⟨height, hash⟩ := tip
  exact Selection.lockTxContext_writes env _ _ _ _

end Owner

namespace Tx

/-- Becoming the recipient. -/
theorem addOutputToSlate_writes (env : Env F E) (slate : Slate F E) (height : Nat)
    (p : Identifier) (isInitiator : Bool) :
    Eff.Moves (TableWrites env.keychain) (addOutputToSlate env slate height p isInitiator) := by
  refine Eff.Moves.of_triple fun w => ?_
  have hdrop : ∀ {α : Type} {x : WalletM F E α} {t : TxLogEntry E},
      Eff.Triple (TableWrites env.keychain w) x (fun _ => TableWrites env.keychain w)
        (TableWrites env.keychain w) →
      Eff.Triple (fun m => TableWrites env.keychain w m ∧ t ∈ m.store.txLogIter) x
        (fun _ => TableWrites env.keychain w) (TableWrites env.keychain w) :=
    fun hx => hx.consequence (fun m hm => hm.1) (fun _ _ h => h) fun _ h => h
  refine (Selection.buildRecipientOutput_writes env slate height p w).bind fun r => ?_
  obtain ⟨slate', keyId, context, tx⟩ := r
  cases isInitiator with
  | true => exact hdrop (Eff.Triple.pure fun m hm => hm)
  | false =>
      have hpass : ∀ {α : Type} (r : Except Error α), Eff.Triple
          (fun m => TableWrites env.keychain w m ∧ tx ∈ m.store.txLogIter)
          (Eff.ofExcept r)
          (fun _ m => TableWrites env.keychain w m ∧ tx ∈ m.store.txLogIter)
          (TableWrites env.keychain w) := fun r =>
        Eff.Triple.ofExcept (fun _ _ _ hm => hm) fun m hm => hm.1
      refine (hpass _).bind fun slate'' => (hpass _).bind fun excess => ?_
      refine Eff.Triple.bind (Q := fun _ => TableWrites env.keychain w)
        (Eff.Triple.modify fun m hm => ?_) fun _ => Eff.Triple.pure fun m hm => hm
      exact hm.1.tail (.amend hm.2 ⟨_, _, _, rfl⟩ p)

theorem updateStoredTx_writes (env : Env F E) (c : Context E) (slate : Slate F E)
    (isInvoiced : Bool) :
    Eff.Moves (TableWrites env.keychain) (updateStoredTx env c slate isInvoiced) := by
  intro w
  cases hrun : updateStoredTx env c slate isInvoiced w with
  | mk r w' =>
      cases r with
      | error e =>
          obtain rfl := updateStoredTx_error hrun
          exact Std.Refl.refl w'
      | ok u =>
          obtain ⟨t, tx, excess, hfind, -, -, rfl⟩ := updateStoredTx_eq_ok hrun
          exact .single (.amend (finalizedEntry_slateId hfind).1 ⟨_, _, _, rfl⟩ t.parentKeyId)

end Tx

theorem updateTxSlateState_writes (K : Keychain F E) (p : Identifier) (slate : Slate F E) :
    Eff.Moves (TableWrites K) (batch (F := F) (updateTxSlateState p slate)) := by
  refine batch_writes fun s u s' h => ?_
  unfold updateTxSlateState at h
  cases hfind : s.txLogIter.find? fun t => decide (t.txSlateId = some slate.id) with
  | none =>
      rw [hfind] at h
      cases h
  | some t =>
      rw [hfind] at h
      cases h
      exact .amend (List.mem_of_find?_eq_some hfind) ⟨_, _, _, rfl⟩ p

namespace Owner

theorem issueInvoiceTx_writes (env : Env F E) (args : IssueInvoiceTxArgs) :
    Eff.Moves (TableWrites env.keychain) (issueInvoiceTx env args) := by
  refine ((accountOrActive_onlyKeys _).mono OnlyKeys.writes).bind fun p => ?_
  refine ((Tx.newTxSlate_onlyKeys _ _ _ _ _).mono OnlyKeys.writes).bind fun slate => ?_
  refine ((ask_onlyKeys _).mono OnlyKeys.writes).bind fun tip => ?_
  obtain ⟨height, hash⟩ := tip
  refine (Tx.addOutputToSlate_writes env _ _ _ _).bind fun r => ?_
  obtain ⟨slate', context⟩ := r
  exact (commit_writes fun s => .keys s _ _).bind fun _ => Eff.Moves.pure _

end Owner

namespace Foreign

theorem receiveTx_writes (env : Env F E) (slate : Slate F E) (dest : Option Label) :
    Eff.Moves (TableWrites env.keychain) (receiveTx env slate dest) := by
  refine Eff.Moves.bind (Eff.Moves.read.bind fun w => Eff.Moves.throwIf _) fun _ => ?_
  refine ((accountOrActive_onlyKeys _).mono OnlyKeys.writes).bind fun p => ?_
  refine Eff.Moves.read.bind fun w => (Eff.Moves.throwIf _).bind fun _ => ?_
  refine (Tx.addOutputToSlate_writes env _ _ _ _).bind fun r => ?_
  obtain ⟨slate', context⟩ := r
  refine (Eff.Moves.ofExcept _).bind fun excess => ?_
  exact (updateTxSlateState_writes _ _ _).bind fun _ => Eff.Moves.pure _

theorem finalizeInvoice_writes (env : Env F E) (slate : Slate F E) (c : Context E) :
    Eff.Moves (TableWrites env.keychain) (finalizeInvoice env slate c) := by
  refine Eff.Moves.read.bind fun w => (Eff.Moves.ofExcept _).bind fun sl => ?_
  refine (Eff.Moves.ofExcept _).bind fun sl' => ?_
  refine (Tx.updateStoredTx_writes env c sl' true).bind fun _ => ?_
  refine (commit_writes fun s => .keys s _ _).bind fun _ => Eff.Moves.read.bind fun w' => ?_
  exact (updateTxSlateState_writes _ _ _).bind fun _ => Eff.Moves.pure _

theorem lockedContext_writes (env : Env F E) (slate : Slate F E) (c : Context E)
    (p : Identifier) : Eff.Moves (TableWrites env.keychain) (lockedContext env slate c p) := by
  unfold lockedContext
  cases c.lateLockArgs with
  | none => exact Eff.Moves.pure _
  | some args =>
      refine ((ask_onlyKeys _).mono OnlyKeys.writes).bind fun tip => ?_
      obtain ⟨height, hash⟩ := tip
      refine ((Tx.newTxSlate_onlyKeys _ _ _ _ _).mono OnlyKeys.writes).bind fun temp => ?_
      refine ((Selection.buildSendTx_onlyKeys _ _ _ _ _ _ _ _ _ _).mono
        OnlyKeys.writes).bind fun r => ?_
      obtain ⟨slate', temp'⟩ := r
      refine (commit_writes fun s => .keys s _ _).bind fun _ => ?_
      exact (Owner.txLockOutputs_writes env slate).bind fun _ => Eff.Moves.pure _

theorem finalizeStandard_writes (env : Env F E) (slate : Slate F E) (c : Context E) :
    Eff.Moves (TableWrites env.keychain) (finalizeStandard env slate c) := by
  refine Eff.Moves.read.bind fun w => (lockedContext_writes env slate c _).bind fun c' => ?_
  refine Eff.Moves.read.bind fun w' => (Eff.Moves.ofExcept _).bind fun sl => ?_
  refine (Eff.Moves.ofExcept _).bind fun sl' => (Eff.Moves.ofExcept _).bind fun _ => ?_
  refine (Tx.updateStoredTx_writes env c' sl' false).bind fun _ => ?_
  refine (commit_writes fun s => .keys s _ _).bind fun _ => ?_
  exact (updateTxSlateState_writes _ _ _).bind fun _ => Eff.Moves.pure _

theorem finalizeTx_writes (env : Env F E) (slate : Slate F E) (post : Bool) :
    Eff.Moves (TableWrites env.keychain) (finalizeTx env slate post) := by
  refine Eff.Moves.read.bind fun w => (Eff.Moves.ofExcept _).bind fun c => ?_
  refine Eff.Moves.bind (Eff.Moves.read.bind fun w => Eff.Moves.throwIf _) fun _ => ?_
  refine Eff.Moves.bind ?_ fun sl => ?_
  · unfold finalizeByState
    cases slate.state with
    | Invoice2 => exact finalizeInvoice_writes env slate c
    | Standard2 => exact finalizeStandard_writes env slate c
    | _ => exact Eff.Moves.throw _
  · refine (Eff.Moves.runIf ((Eff.Moves.ofExcept _).bind fun tx => ?_)).bind fun _ =>
      Eff.Moves.pure _
    exact (ask_onlyKeys _).mono OnlyKeys.writes

end Foreign

end GrinWallet
