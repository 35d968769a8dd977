import GrinWallet.Runs.Confirmation
import GrinWallet.Runs.Writes
import GrinWallet.Selection.Cancelling
import GrinWallet.Selection.Locking

/-! # The log in every run

Calls write records that are unconfirmed, or keep the type and the flag of a
record they found. What is left are the sections that confirm a record and the
cancellation by a scan: a run in which none of these meets the wrong record
keeps every record coherent.
-/

namespace GrinWallet

open Effect WalletBackend OrderedTable Sections

variable {F E : Type}

namespace Store

theorem logCoherent_ofRecords : OfRecords (LogCoherent (E := E)) :=
  fun _ _ _ hlog _ h => h.of_log hlog

theorem LogCoherent.mem {s : Store E} (hs : s.LogCoherent) {t : TxLogEntry E}
    (ht : t ∈ s.txLogIter) : t.Coherent := hs t ht

end Store

theorem TxLogEntry.Coherent.amend {t t' : TxLogEntry E} (ht : t.Coherent) (h : t.Amended t') :
    t'.Coherent := by
  obtain ⟨state, excess, proof, rfl⟩ := h
  exact ht

variable [CommRing F] [AddCommGroup E] [Module F E] [DecidableEq E]

namespace Selection

/-- A lock adds one record to the log, unconfirmed. -/
theorem lockBatch_txLog {K : Keychain F E} {slate : Slate F E} {height : Nat} {c : Context E}
    {excess : Option E} {now : Nat} {s s' : Store E} {u : Unit}
    (h : lockBatch K slate height c excess now s = .ok (u, s')) :
    ∃ t : TxLogEntry E, t.confirmed = false ∧ s'.txLog = s.txLog.put (c.parentKeyId, t) := by
  obtain ⟨debited, proof, hlocked⟩ := lockBatch_eq_ok h
  obtain ⟨outputs, rfl⟩ := hlocked.rest
  exact ⟨_, rfl, rfl⟩

end Selection

/-- Every write of a call keeps the log coherent. -/
theorem TableWrite.coherent {K : Keychain F E} {s s' : Store E} (h : TableWrite K s s')
    (hs : s.LogCoherent) : s'.LogCoherent := by
  cases h with
  | keys childIndex contexts => exact hs
  | lock h =>
      obtain ⟨t, ht, hlog⟩ := Selection.lockBatch_txLog h
      exact (hs.save (TxLogEntry.coherent_of_unconfirmed ht) _).of_log hlog
  | receive slate height p keyId now =>
      exact Store.LogCoherent.save (hs.of_log rfl) (TxLogEntry.coherent_of_unconfirmed rfl) p
  | amend ht h p => exact hs.save ((hs.mem ht).amend h) p

theorem TableWrites.coherent {K : Keychain F E} (w w' : WalletBackend F E)
    (h : TableWrites K w w') (hw : w.store.LogCoherent) : w'.store.LogCoherent :=
  TableWrites.keeps (I := Store.LogCoherent) (fun _ _ hstep => hstep.coherent) w w' h hw

/-! ## The sections that can fail it -/

/-- The record of a scan's cancellation, if it has one, is not a confirmed transaction. -/
def CancelsUnconfirmed (o : OutputData E) (s : Store E) : Prop :=
  ∀ id, o.txLogEntry = some id →
    ∀ t, (Updater.retrieveTxs s (some id) none (some o.keyId.parentPath) false).head? = some t →
      t.confirmed = true → t.txType ≠ .TxSent ∧ t.txType ≠ .TxReceived

/-- What a section must meet for the log to stay coherent: a refresh confirms no
cancelled record, a kernel no reverted one, and a scan cancels no confirmed one. -/
def KeepsStatus (env : Env F E) : Hold F E → WalletBackend F E → Prop
  | .refresh _ all, w => Updater.RefreshConfirmsLive env w.store w.parentKeyId all w.tick
  | .call (.initSendTx args), w => args.refreshOutputsFromNode = true →
      Updater.RefreshConfirmsLive env w.store (w.accountNamed args.srcAcctName) false (w.tick + 3)
  | .call (.processInvoiceTx _ args), w => args.refreshOutputsFromNode = true →
      Updater.RefreshConfirmsLive env w.store (w.accountNamed args.srcAcctName) false (w.tick + 1)
  | .confirmByKernel _ _ t, _ => t.txType ≠ .TxReverted
  | .cancelEntry o, w => CancelsUnconfirmed o w.store
  | _, _ => True

/-! ## Every section -/

section Keep

variable {env : Env F E} {w : WalletBackend F E}

omit [CommRing F] [AddCommGroup E] [Module F E] [DecidableEq E] in
theorem cancelTxLogEntry_coherent {o : OutputData E} {s : Store E} (hs : s.LogCoherent)
    (h : CancelsUnconfirmed o s) : (Scan.cancelTxLogEntry o s).LogCoherent := by
  unfold Scan.cancelTxLogEntry
  cases hid : o.txLogEntry with
  | none => exact hs
  | some id =>
      simp only
      cases htxs : Updater.retrieveTxs s (some id) none (some o.keyId.parentPath) false with
      | nil => exact hs
      | cons t rest =>
          have hcancels := h id hid t (by rw [htxs]; rfl)
          have hmem : t ∈ s.txLogIter :=
            (Updater.mem_retrieveTxs.mp (htxs ▸ List.mem_cons_self)).1
          refine hs.save (fun hc => ?_) _
          obtain ⟨hsent, hreceived⟩ := hcancels hc
          obtain ⟨hlive, hreverted⟩ := hs.mem hmem hc
          cases htype : t.txType <;> simp_all [TxLogEntry.Cancelled]

omit [CommRing F] [AddCommGroup E] [Module F E] [DecidableEq E] in
theorem restoreOutput_coherent {now : Nat} {s : Store E} (hs : s.LogCoherent)
    (o : OutputResult E) : (Scan.restoreOutput now s o).LogCoherent := by
  unfold Scan.restoreOutput
  refine Store.LogCoherent.of_log (s := (s.nextTxLogId o.keyId.parentPath).2.saveTxLogEntry _ _)
    (Store.LogCoherent.save (hs.of_log rfl) (fun _ => ?_) _) rfl
  cases o.isCoinbase <;> simp [TxLogEntry.Cancelled, TxLogEntry.new]

omit [CommRing F] [AddCommGroup E] [Module F E] [DecidableEq E] in
theorem restoreOutputs_coherent {now : Nat} {s : Store E} (hs : s.LogCoherent)
    (os : List (OutputResult E)) : (os.foldl (Scan.restoreOutput now) s).LogCoherent := by
  induction os generalizing s with
  | nil => exact hs
  | cons o os ih => exact ih (restoreOutput_coherent hs o)

omit [DecidableEq E] in
theorem cancelTx_coherent {K : Keychain F E} {p : Identifier} {txId : Option Nat}
    {txSlateId : Option Uuid} {s s' : Store E} {u : Unit} (hs : s.LogCoherent)
    (h : Tx.cancelTx K p txId txSlateId s = .ok (u, s')) : s'.LogCoherent := by
  obtain ⟨tx, -, -, hconfirmed, rfl⟩ := Tx.cancelTx_eq_ok h
  obtain ⟨outputs, hrest⟩ := Updater.foldl_cancelOutput_rest
    ((Updater.retrieveOutputs K s false (some tx.id) (some p)).map (·.output)) s
  unfold Updater.cancelTxAndOutputs
  rw [hrest]
  exact Store.LogCoherent.save (s := { s with outputs := outputs })
    (t := { tx with txType := Updater.cancelledType tx.txType }) (hs.of_log rfl)
    (TxLogEntry.coherent_of_unconfirmed hconfirmed) p

omit [DecidableEq E] in
theorem cancelActive_coherent (env : Env F E) (txId : Option Nat) (txSlateId : Option Uuid) :
    Eff.Moves (Eff.Keeps (Tables Store.LogCoherent)) (cancelActive env txId txSlateId) := by
  exact Eff.Moves.read.bind fun w => batch_tables fun _ _ _ hs h => cancelTx_coherent hs h

/-- A call that meets its condition keeps the log coherent. -/
theorem call_coherent {c : ApiCall F E} (hstatus : KeepsStatus env (.call c) w)
    (hw : w.store.LogCoherent) : (c.run env w).2.store.LogCoherent := by
  have hwrites : ∀ {α : Type} {x : WalletM F E α}, Eff.Moves (TableWrites env.keychain) x →
      (discard x w).2.store.LogCoherent := by
    intro α x hx
    have hmove : Eff.Moves (TableWrites env.keychain) (discard x) :=
      hx.bind fun _ => Eff.Moves.pure ()
    exact TableWrites.coherent w _ (hmove w) hw
  have htriple : ∀ {α : Type} {x : WalletM F E α},
      Eff.Triple (fun m => m = w) x (fun _ => Tables Store.LogCoherent) (Tables Store.LogCoherent) →
      (discard x w).2.store.LogCoherent := by
    intro α x hx
    have hdiscard : Eff.Triple (fun m => m = w) (discard x) (fun _ => Tables Store.LogCoherent)
        (Tables Store.LogCoherent) := hx.bind fun _ => Eff.Triple.pure fun _ h => h
    exact hdiscard.final rfl
  cases c with
  | initSendTx args =>
      exact htriple (Owner.initSendTx_tables Store.logCoherent_ofRecords hw args fun hrefresh =>
        Updater.refreshOutputs_coherent hw (hstatus hrefresh))
  | issueInvoiceTx args => exact hwrites (Owner.issueInvoiceTx_writes env args)
  | processInvoiceTx slate args =>
      exact htriple (Owner.processInvoiceTx_tables Store.logCoherent_ofRecords hw slate args
        fun hrefresh => Updater.refreshOutputs_coherent hw (hstatus hrefresh))
  | txLockOutputs slate =>
      exact TableWrites.coherent w _ (Owner.txLockOutputs_writes env slate w) hw
  | receiveTx slate dest => exact hwrites (Foreign.receiveTx_writes env slate dest)
  | finalizeTx slate post => exact hwrites (Foreign.finalizeTx_writes env slate post)
  | buildCoinbase blockFees =>
      have hkey := Updater.coinbaseKey_onlyKeys (F := F) (E := E) blockFees.keyId
      refine Eff.Moves.bind (R := Eff.Keeps (Tables Store.LogCoherent)) ?_
        (fun _ => Eff.Moves.pure ()) w hw
      refine Eff.Moves.read.bind fun w' => ?_
      refine (hkey.mono (OnlyKeys.keeps fun s _ h => h)).bind fun key => ?_
      exact (commit_tables fun s hs => hs.of_log rfl).bind fun _ => Eff.Moves.pure _
  | createAccountPath label =>
      refine Eff.Moves.bind (R := Eff.Keeps (Tables Store.LogCoherent)) ?_
        (fun _ => Eff.Moves.pure ()) w hw
      refine Eff.Moves.read.bind fun w' => (Eff.Moves.throwIf _).bind fun _ => ?_
      exact (commit_tables fun s hs => hs.of_log rfl).bind fun _ => Eff.Moves.pure _
  | setActiveAccount label =>
      refine Eff.Moves.read.bind (R := Eff.Keeps (Tables Store.LogCoherent)) (fun w' => ?_) w hw
      cases w'.store.acctPaths.rows.find? fun a => decide (a.label = label) with
      | none => exact Eff.Moves.throw _
      | some a => exact fun m hm => hm
  | setParentKeyId id => exact hw

/-- A section that meets its condition keeps the log coherent. -/
theorem section_coherent {β : Type} {label : Hold F E} {body : WalletM F E β}
    (hsection : WalletSection env β label body) (hstatus : KeepsStatus env label w)
    (hw : w.store.LogCoherent) : (body w).2.store.LogCoherent := by
  cases hsection with
  | call c => exact call_coherent hstatus hw
  | read h => exact hw
  | node question => exact hw
  | nodeAttempt question => exact hw
  | refresh started all =>
      have hrefresh : Eff.Triple (At w.store w.tick)
          (Eff.attempt (Updater.refreshOutputs env w.parentKeyId all))
          (fun _ => Tables Store.LogCoherent) (Tables Store.LogCoherent) :=
        (Updater.refreshOutputs_coherent hw hstatus).attempt.consequence (fun _ h => h)
          (fun r m h => by cases r <;> exact h) fun _ h => h
      unfold refreshActive
      rw [Eff.run_bind_ok (Eff.run_read w)]
      refine Eff.Triple.final (I := Tables Store.LogCoherent) (hrefresh.bind fun result => ?_)
        ⟨rfl, rfl⟩
      cases result <;> exact Eff.Triple.pure fun _ h => h
  | confirmByKernel started account t h =>
      have htype : t.txType = .TxReceived ∨ t.txType = .TxSent := by
        have hreverted : t.txType ≠ .TxReverted := hstatus
        simp only [TxLogEntry.outstanding, Bool.and_eq_true, Bool.or_eq_true, decide_eq_true_eq] at h
        tauto
      refine hw.save (t := { t with confirmed := true }.updateConfirmationTs (env.now w.tick))
        (fun _ => ?_) account
      rcases htype with htype | htype <;>
        simp [TxLogEntry.Cancelled, TxLogEntry.updateConfirmationTs, htype]
  | cancelEntry o => exact cancelTxLogEntry_coherent hw hstatus
  | saveOutput o => exact hw.of_log rfl
  | deleteOutput o => exact hw.of_log rfl
  | restoreOutputs chunk =>
      refine Eff.Moves.bind (R := Eff.Keeps (Tables Store.LogCoherent)) (fun m hm => hm)
        (fun now => commit_tables fun s hs => ?_) w hw
      exact restoreOutputs_coherent hs chunk
  | restorePaths found => exact Scan.restorePaths_tables Store.logCoherent_ofRecords found w hw
  | saveScanned info => exact hw.of_log rfl
  | saveProgress info => exact hw.of_log rfl
  | cancelExpired started t => exact cancelActive_coherent env _ _ w hw
  | cancelTx txId txSlateId => exact cancelActive_coherent env _ _ w hw

/-- In a run whose sections all meet their condition, no log record is confirmed
and at the same time cancelled or reverted. -/
theorem no_entry_cancelled_and_confirmed {c : Config (Hold F E) (WalletBackend F E) Error}
    (hw : w.store.LogCoherent) (h : WalletReaches env (KeepsStatus env) w c) :
    c.state.store.LogCoherent :=
  h.invariant (I := Tables Store.LogCoherent)
    (fun _ _ _ _ hsection hstatus => section_coherent hsection hstatus) hw

theorem refreshConfirmsLive_of_live {s : Store E} (h : ∀ t ∈ s.txLogIter, ¬ t.Cancelled)
    (env : Env F E) (account : Identifier) (all : Bool)
    (tick : Nat) : Updater.RefreshConfirmsLive env s account all tick :=
  fun _ _ _ _ _ _ _ _ _ _ _ _ hentry => h _ (List.mem_of_find?_eq_some hentry)

end Keep

/-! ## A payment spent by another wallet of the seed -/

namespace SampleReorg

/-- The output of a payment of 5, in the block at height 90. -/
def paid : ChainOutput (ℤ × ℤ) :=
  ⟨sampleKeychain.commit 5 (defaultPath.child 0), 0, false, 90, 3⟩

/-- A node whose chain has the output spent at one question, and has it back
after a reorganisation. -/
def env : Env ℤ (ℤ × ℤ) := sampleEnv fun t =>
  { sampleNode (if t = 6 then [] else [paid]) [] with
    getKernel := fun _ _ _ => .ok (some (90, 0)) }

/-- A receipt and two scans. -/
def start : Config (Hold ℤ (ℤ × ℤ)) (WalletBackend ℤ (ℤ × ℤ)) Error where
  threads :=
    [Thread.atomic (.call (.receiveTx SampleSend.offer none))
        ((ApiCall.receiveTx SampleSend.offer none).run env),
      Owner.scan env Owner.lockedRestore 2 none false,
      Owner.scan env Owner.lockedRestore 2 none false]
  state := .new

theorem start_reachable {allowed : Hold ℤ (ℤ × ℤ) → WalletBackend ℤ (ℤ × ℤ) → Prop} :
    WalletReaches env allowed .new start := by
  refine reachable_pool fun t ht => ?_
  simp only [List.mem_cons, List.not_mem_nil, or_false] at ht
  rcases ht with rfl | rfl | rfl
  · exact .call _
  · exact .scan _ _ _
  · exact .scan _ _ _

/-- The first scan confirms the payment and stops, the second scan's refresh finds
its output spent, and the same scan then finds it on the chain. -/
theorem scan_cancels_confirmed :
    ∃ c, WalletReaches env (fun _ _ => True) .new c ∧
      ∃ t ∈ c.state.store.txLogIter, t.Cancelled ∧ t.confirmed = true := by
  refine ⟨start.follow [(0, 1), (1, 1), (2, 7)],
    reachable_follow start_reachable (Config.allows_of_forall (fun _ _ => trivial) _ _), ?_⟩
  have hfound : ((start.follow [(0, 1), (1, 1), (2, 7)]).state.store.txLogIter.any fun t =>
      decide (t.txType = .TxReceivedCancelled) && t.confirmed) = true := by decide +kernel
  obtain ⟨t, ht, hc⟩ := List.any_eq_true.mp hfound
  rw [Bool.and_eq_true, decide_eq_true_eq] at hc
  exact ⟨t, ht, .inr hc.1, hc.2⟩

theorem refresh_allowed : start.Allows (KeepsStatus env) [(0, 1), (1, 1)] := by
  refine ⟨fun t ht => ?_, fun t ht => ?_, trivial⟩
  · obtain rfl := Option.some.inj ht
    exact ⟨trivial, trivial⟩
  · obtain rfl := Option.some.inj ht
    refine ⟨refreshConfirmsLive_of_live ?_ _ _ _ _, trivial⟩
    have hlive : ((start.advance 0 1).state.store.txLogIter.all fun t =>
        decide (t.txType = .TxReceived)) = true := by decide +kernel
    intro t ht hc
    have htype := of_decide_eq_true (List.all_eq_true.mp hlive t ht)
    rcases hc with hc | hc
    · exact nomatch htype.symm.trans hc
    · exact nomatch htype.symm.trans hc

theorem no_entry_cancelled_and_confirmed_sample :
    (start.follow [(0, 1), (1, 1)]).state.store.LogCoherent :=
  no_entry_cancelled_and_confirmed (w := .new) (fun _ ht => nomatch ht)
    (reachable_follow start_reachable refresh_allowed)

end SampleReorg

end GrinWallet
