import GrinWallet.Runs.Frame
import GrinWallet.Runs.Refresh
import GrinWallet.Selection.Cancelling
import GrinWallet.Updating.ScanBatches

/-! # Scans that stop

A scan saves how far it has come after each of its batches, so that a scan that
stopped need not begin again. What was saved, and how the wallet was made, decide
where the next update goes on.
-/

namespace GrinWallet

open Effect WalletBackend Sections

variable {F E : Type}

/-! ## The progress a scan saves -/

section Progress

/-- The sections that save how far a scan has come. -/
def Hold.savesProgress : Hold F E → Bool
  | .saveScanned => true
  | _ => false

/-- The same block was scanned last, and the wallet was made the same way. -/
def SameProgress (w w' : WalletBackend F E) : Prop :=
  w'.store.lastScannedBlock = w.store.lastScannedBlock ∧ w'.store.initStatus = w.store.initStatus

instance : Std.Refl (SameProgress (F := F) (E := E)) := ⟨fun _ => ⟨rfl, rfl⟩⟩

instance : IsTrans (WalletBackend F E) SameProgress :=
  ⟨fun _ _ _ h h' => ⟨h'.1.trans h.1, h'.2.trans h.2⟩⟩

/-- The sections that leave the progress of scans alone. -/
def BesidesProgress (β : Type) (label : Hold F E) (body : WalletM F E β) : Prop :=
  label.savesProgress = false ∧ Eff.Moves SameProgress body

theorem ask_sameProgress {α : Type} (answer : Nat → Except Error α) :
    Eff.Moves (SameProgress (F := F) (E := E)) (ask answer) := fun _ => ⟨rfl, rfl⟩

theorem cancelTxLogEntry_sameProgress [DecidableEq E] (o : OutputData E) :
    Eff.Moves (SameProgress (F := F)) (commit (Scan.cancelTxLogEntry o)) := by
  intro w
  show (Scan.cancelTxLogEntry o w.store).lastScannedBlock = _ ∧
    (Scan.cancelTxLogEntry o w.store).initStatus = _
  unfold Scan.cancelTxLogEntry
  cases o.txLogEntry with
  | none => exact ⟨rfl, rfl⟩
  | some id =>
      simp only
      cases Updater.retrieveTxs w.store (some id) none (some o.keyId.parentPath) false with
      | nil => exact ⟨rfl, rfl⟩
      | cons t ts => exact ⟨rfl, rfl⟩

theorem restoreOutput_progress (now : Nat) (s : Store E) (o : OutputResult E) :
    (Scan.restoreOutput now s o).lastScannedBlock = s.lastScannedBlock ∧
      (Scan.restoreOutput now s o).initStatus = s.initStatus := ⟨rfl, rfl⟩

theorem restoreOutputs_sameProgress (env : Env F E) (chunk : List (OutputResult E)) :
    Eff.Moves SameProgress (do
      let now ← utcNow env
      commit fun s => chunk.foldl (Scan.restoreOutput now) s : WalletM F E Unit) := by
  refine (ask_sameProgress _).bind fun now w => ?_
  show (chunk.foldl (Scan.restoreOutput now) w.store).lastScannedBlock = _ ∧
    (chunk.foldl (Scan.restoreOutput now) w.store).initStatus = _
  generalize w.store = s
  induction chunk generalizing s with
  | nil => exact ⟨rfl, rfl⟩
  | cons o os ih =>
      obtain ⟨hblock, hstatus⟩ := ih (Scan.restoreOutput now s o)
      exact ⟨hblock.trans (restoreOutput_progress now s o).1,
        hstatus.trans (restoreOutput_progress now s o).2⟩

theorem restorePaths_sameProgress (found : List (Identifier × Nat)) :
    Eff.Moves (SameProgress (F := F) (E := E)) (Scan.restorePaths found).run := by
  intro w
  refine (Scan.restorePaths_made found).run (I := SameProgress w) ?_ (Std.Refl.refl w)
  intro β label body m h hm
  cases h with
  | read => exact hm
  | account label name path => exact hm
  | index label path n =>
      refine IsTrans.trans w m _ hm ?_
      show (Scan.raiseChildIndex path n m.store).lastScannedBlock = _ ∧
        (Scan.raiseChildIndex path n m.store).initStatus = _
      unfold Scan.raiseChildIndex
      by_cases hle : n ≥ m.store.childIndex path
      · rw [if_pos hle]
        exact ⟨rfl, rfl⟩
      · rw [if_neg hle]
        exact ⟨rfl, rfl⟩

variable [CommRing F] [AddCommGroup E] [Module F E] [DecidableEq E]

theorem refreshActive_sameProgress (env : Env F E) (all : Bool) :
    Eff.Moves SameProgress (refreshActive env all) := by
  have hrefresh : ∀ account, Eff.Moves SameProgress (Updater.refreshOutputs env account all) := by
    intro account w
    obtain ⟨s, tick, ⟨_, _, _, _, rfl⟩, hrun⟩ := Updater.refreshOutputs_refreshes env account all w
    rw [hrun]
    exact ⟨rfl, rfl⟩
  refine Eff.Moves.read.bind fun w => (hrefresh _).attempt.bind fun result => ?_
  cases result <;> exact Eff.Moves.pure _

/-- What a scan does besides saving its progress. -/
theorem scanWith_besidesProgress (env : Env F E) (fuel : Nat) (all : Bool)
    (batchStart batchEnd start stop : Nat) (range : Option (Nat × Nat)) :
    (Scan.scanWith env Owner.lockedRestore fuel all batchStart batchEnd start stop range).MadeOf
      BesidesProgress := by
  refine Scan.scanWith_made (fun _ question => ⟨rfl, ask_sameProgress question⟩)
    ⟨rfl, Eff.Moves.read⟩ (Scan.repair_made ?_ ?_ ?_ ?_ ?_) fuel all batchStart batchEnd start stop
    range
  · exact fun o => ⟨rfl, cancelTxLogEntry_sameProgress o⟩
  · exact fun o => ⟨rfl, fun _ => ⟨rfl, rfl⟩⟩
  · exact fun o => ⟨rfl, fun _ => ⟨rfl, rfl⟩⟩
  · exact fun chunk => ⟨rfl, restoreOutputs_sameProgress env chunk⟩
  · exact fun found => Thread.MadeOf.atomic ⟨rfl, restorePaths_sameProgress found⟩

/-- What the scan of a program saves: the block reached, and the marked status. -/
structure Saves (mark : Option WalletInitStatus → Option WalletInitStatus)
    (save : ScannedBlockInfo → Store E → Store E) : Prop where
  block : ∀ info s, (save info s).lastScannedBlock = some info
  status : ∀ info s, (save info s).initStatus = mark s.initStatus
  again : ∀ status, mark (mark status) = mark status

/-- A scan of `[start, tip]` that began in `s` has saved `k` batches. -/
structure Progress (mark : Option WalletInitStatus → Option WalletInitStatus) (start tip : Nat)
    (s : Store E) (k : Nat) (w : WalletBackend F E) : Prop where
  unsaved : k = 0 → w.store.lastScannedBlock = s.lastScannedBlock ∧ w.store.initStatus = s.initStatus
  saved : 0 < k → w.store.lastScannedBlock.map (·.height) = some (firstUnscanned start tip k - 1) ∧
    w.store.initStatus = mark s.initStatus

omit [CommRing F] [AddCommGroup E] [Module F E] [DecidableEq E] in
theorem Progress.of_same {mark : Option WalletInitStatus → Option WalletInitStatus}
    {start tip k : Nat} {s : Store E} {w w' : WalletBackend F E}
    (h : Progress mark start tip s k w) (hsame : SameProgress w w') :
    Progress mark start tip s k w' where
  unsaved hk := ⟨hsame.1.trans (h.unsaved hk).1, hsame.2.trans (h.unsaved hk).2⟩
  saved hk := ⟨by rw [hsame.1]; exact (h.saved hk).1, hsame.2.trans (h.saved hk).2⟩

omit [CommRing F] [AddCommGroup E] [Module F E] [DecidableEq E] in
theorem BesidesProgress.keeps {mark : Option WalletInitStatus → Option WalletInitStatus}
    {start tip k : Nat} {s : Store E} (β : Type) (label : Hold F E) (body : WalletM F E β)
    (h : BesidesProgress β label body) :
    label.savesProgress = false ∧ Eff.Moves (Eff.Keeps (Progress mark start tip s k)) body :=
  ⟨h.1, fun w hw => hw.of_same (h.2 w)⟩

omit [CommRing F] [AddCommGroup E] [Module F E] [DecidableEq E] in
theorem Progress.next {mark : Option WalletInitStatus → Option WalletInitStatus}
    {save : ScannedBlockInfo → Store E → Store E} (hsave : Saves mark save) {start tip k : Nat}
    {s : Store E} {w : WalletBackend F E} (h : Progress mark start tip s k w)
    {info : ScannedBlockInfo} (hinfo : info.height = firstUnscanned start tip (k + 1) - 1) :
    Progress mark start tip s (k + 1) { w with store := save info w.store } where
  unsaved hk := by omega
  saved _ := by
    refine ⟨?_, ?_⟩
    · show (save info w.store).lastScannedBlock.map (·.height) = _
      rw [hsave.block, ← hinfo]
      rfl
    · show (save info w.store).initStatus = _
      rw [hsave.status]
      by_cases hk : k = 0
      · rw [(h.unsaved hk).2]
      · rw [(h.saved (by omega)).2, hsave.again]

/-- A scan reports the end of its batch. -/
theorem scanWith_height (env : Env F E) {lastPart : List (Identifier × Nat) → WalletThread F E Unit}
    {fuel : Nat} {all : Bool} {batchStart batchEnd start stop : Nat} {range : Option (Nat × Nat)} :
    (Scan.scanWith env lastPart fuel all batchStart batchEnd start stop range).Returns
      fun r => r.1.height = batchEnd := by
  have htail : ∀ total : Nat × Nat,
      (do
        let pmmrRange ← Scan.askNode env fun n =>
          n.heightRangeToPmmrIndices batchStart (some batchEnd)
        let page ← Scan.collectChainOutputs env pmmrRange.2 fuel pmmrRange.1
        let w ← Thread.atomic .snapshot Eff.read
        let walletOutputs := Updater.retrieveOutputs env.keychain w.store true none none
        Scan.repair env lastPart all walletOutputs page.1
        return (⟨batchEnd, "", pmmrRange.1, page.2⟩, total) :
          WalletThread F E (ScannedBlockInfo × Nat × Nat)).Returns fun r => r.1.height = batchEnd :=
    fun total => Thread.Returns.andThen fun pmmr => Thread.Returns.andThen fun page =>
      Thread.Returns.andThen fun w => Thread.Returns.andThen fun u => rfl
  cases range with
  | none => exact Thread.Returns.andThen htail
  | some r => exact htail r

/-- Wherever a scan is stopped, its progress is that of the batches it has saved. -/
theorem scanBatches_along (env : Env F E) {mark : Option WalletInitStatus → Option WalletInitStatus}
    {save : ScannedBlockInfo → Store E → Store E} (hsave : Saves mark save) (fuel : Nat) (all : Bool)
    {start : Nat} {tip : Nat × String} (hfit : Owner.HeightsFit start tip.1) (s : Store E)
    {hs : List Nat} {k : Nat} (hhs : hs = Owner.batchStarts (start + k * 10001) tip.1) (range : Option (Nat × Nat))
    {w : WalletBackend F E} (hw : Progress mark start tip.1 s k w) :
    (Owner.scanBatches env Owner.lockedRestore fuel all start tip save hs range).Along
      Hold.savesProgress (Progress mark start tip.1 s) (fun _ k' _ => k' = k + hs.length) k w := by
  induction hs generalizing k range w with
  | nil => exact ⟨hw, rfl⟩
  | cons h hs ih =>
      have hle : start + k * 10001 ≤ tip.1 := by
        by_contra hlt
        rw [Owner.batchStarts_of_lt (by omega)] at hhs
        cases hhs
      rw [Owner.batchStarts_of_le hle] at hhs
      obtain ⟨rfl, hrest⟩ := List.cons.inj hhs
      refine ((scanWith_besidesProgress env fuel all _ _ _ _ range).along
        (fun β label body => BesidesProgress.keeps β label body) hw).andThen ?_
      rintro ⟨info, total⟩ k' m hrun hm rfl
      have hheight := (scanWith_height env).run hrun
      refine Thread.Along.andThen (Q := fun _ k'' _ => k'' = k' + 1)
        (Thread.Along.atomic hm ?_ ?_) ?_
      · intro u m' hcommit
        cases hcommit
        refine ⟨hm.next hsave ?_, rfl⟩
        show info.height = _
        rw [hheight, Owner.batchEnd_of_fit hfit hle, firstUnscanned]
        omega
      · intro e m' hcommit
        cases hcommit
      · rintro u k'' m' - hm' rfl
        have hnext := ih (k := k' + 1) (by rw [hrest]; congr 1; omega) (some total) hm'
        have hlen : k' + (hs.length + 1) = k' + 1 + hs.length := by omega
        rw [List.length_cons, hlen]
        exact hnext

end Progress

/-! ## The two programs that scan -/

section Programs

variable [CommRing F] [AddCommGroup E] [Module F E] [DecidableEq E]

/-- What a program has learned when it comes to its batches, and the records whose
time to live it will check. -/
structure ScanStart (E : Type) where
  tip : Nat × String
  startHeight : Nat
  expiring : Option (Identifier × List (TxLogEntry E))
deriving DecidableEq

/-- The owner's scan up to its batches. -/
def Owner.beginScan (env : Env F E) (startHeight : Option Nat) :
    WalletThread F E (Option (ScanStart E)) := do
  let _ ← updateOutputs env none true
  let tip ← Thread.atomic .node (getChainTip env)
  return some ⟨tip, startHeight.getD 1, none⟩

/-- An update up to its batches, if it comes to them. -/
def Owner.beginUpdate (env : Env F E) (updateAll : Bool) :
    WalletThread F E (Option (ScanStart E)) := do
  let w ← Thread.atomic .readActive Eff.read
  let parentKeyId := w.parentKeyId
  let updated ← updateOutputs env (some parentKeyId) updateAll
  if !updated then
    return none
  let w ← Thread.atomic (.retrieve parentKeyId) Eff.read
  let txs := Updater.retrieveTxs w.store none none (some parentKeyId) true
  let result ← updateTxsViaKernel env parentKeyId txs
  match result with
  | none => return none
  | some txs =>
      let tip ← Thread.atomic .node (Eff.attempt (getChainTip env))
      match tip with
      | .error _ => return none
      | .ok tip =>
          let w ← Thread.atomic .readScanned Eff.read
          let startHeight := (scannedBlock w.store tip).height - reorgRescanWindow
          return some ⟨tip, startHeight, some (parentKeyId, txs)⟩

/-- A program that scans batch after batch. -/
inductive ScanProgram
  | scan (startHeight : Option Nat) (deleteUnconfirmed : Bool)
  | update (updateAll : Bool)

namespace ScanProgram

/-- The program up to its batches. -/
def begin (env : Env F E) : ScanProgram → WalletThread F E (Option (ScanStart E))
  | scan startHeight _ => Owner.beginScan env startHeight
  | update updateAll => Owner.beginUpdate env updateAll

/-- The status a program leaves when it has saved its progress. -/
def mark : ScanProgram → Option WalletInitStatus → Option WalletInitStatus
  | scan _ _, status => status
  | update _, _ => some .InitComplete

/-- How a program saves its progress. -/
def save : ScanProgram → ScannedBlockInfo → Store E → Store E
  | scan _ _, info, s => s.saveLastScannedBlock info
  | update _, info, s => (s.saveLastScannedBlock info).saveInitStatus .InitComplete

def deletes : ScanProgram → Bool
  | scan _ deleteUnconfirmed => deleteUnconfirmed
  | update _ => false

/-- The program. -/
def thread (env : Env F E) (fuel : Nat) : ScanProgram → WalletThread F E Unit
  | scan startHeight deleteUnconfirmed =>
      Owner.scan env Owner.lockedRestore fuel startHeight deleteUnconfirmed
  | update updateAll =>
      (Owner.updateWalletState env Owner.lockedRestore fuel updateAll).andThen fun _ => pure ()

/-- What a program does from its batches on. -/
def proceed (env : Env F E) (fuel : Nat) (p : ScanProgram) (b : ScanStart E) :
    WalletThread F E Unit := do
  Owner.scanBatches env Owner.lockedRestore fuel p.deletes b.startHeight b.tip p.save
    (Owner.heightBatches b.startHeight b.tip.1) none
  match b.expiring with
  | none => pure ()
  | some (started, txs) => Owner.cancelExpired env started b.tip.1 txs

omit [CommRing F] [AddCommGroup E] [Module F E] [DecidableEq E] in
theorem saves (p : ScanProgram) : Saves p.mark (p.save (E := E)) := by
  cases p with
  | scan startHeight deleteUnconfirmed => exact ⟨fun _ _ => rfl, fun _ _ => rfl, fun _ => rfl⟩
  | update updateAll => exact ⟨fun _ _ => rfl, fun _ _ => rfl, fun _ => rfl⟩

/-- A program is its begin and, if that comes to the batches, the rest. -/
theorem thread_eq (env : Env F E) (fuel : Nat) (p : ScanProgram) :
    p.thread env fuel = (p.begin env).andThen fun b? =>
      match b? with
      | none => pure ()
      | some b => p.proceed env fuel b := by
  cases p with
  | scan startHeight deleteUnconfirmed =>
      show Owner.scan env _ fuel startHeight deleteUnconfirmed = _
      unfold Owner.scan begin Owner.beginScan
      simp only [Thread.bind_eq, Thread.andThen_assoc]
      congr 1
      funext updated
      congr 1
      funext tip
      exact (Thread.andThen_ret _).symm
  | update updateAll =>
      show (Owner.updateWalletState env _ fuel updateAll).andThen _ = _
      unfold Owner.updateWalletState begin Owner.beginUpdate
      simp only [Thread.bind_eq, Thread.andThen_assoc]
      congr 1
      funext w
      congr 1
      funext updated
      cases updated with
      | false => rfl
      | true =>
          simp only [Bool.not_true, Bool.false_eq_true, if_false, Thread.andThen_assoc]
          congr 1
          funext w'
          congr 1
          funext result
          cases result with
          | none => rfl
          | some txs =>
              simp only [Thread.andThen_assoc]
              congr 1
              funext tip
              cases tip with
              | error e => rfl
              | ok tip =>
                  simp only [Thread.andThen_assoc]
                  congr 1
                  funext w''
                  show _ = Thread.andThen (Owner.scanBatches ..) _
                  congr 1
                  funext u
                  exact Thread.andThen_ret _

end ScanProgram

/-! ## The next update -/

omit [DecidableEq E] in
theorem cancelActive_sameProgress (env : Env F E) (txId : Option Nat) (txSlateId : Option Uuid) :
    Eff.Moves SameProgress (cancelActive env txId txSlateId) := by
  refine Eff.Moves.read.bind fun w m => ?_
  cases hcancel : batch (Tx.cancelTx env.keychain w.parentKeyId txId txSlateId) m with
  | mk r m' =>
      cases r with
      | error e =>
          obtain ⟨-, rfl⟩ := Eff.transact_eq_error.mp hcancel
          exact Std.Refl.refl _
      | ok u =>
          obtain ⟨s, hs, rfl⟩ := batch_eq_ok.mp hcancel
          obtain ⟨tx, -, -, -, rfl⟩ := Tx.cancelTx_eq_ok hs
          obtain ⟨outputs, hrest⟩ := Updater.foldl_cancelOutput_rest
            ((Updater.retrieveOutputs env.keychain m.store false (some tx.id)
              (some w.parentKeyId)).map (·.output)) m.store
          unfold Updater.cancelTxAndOutputs
          rw [hrest]
          exact ⟨rfl, rfl⟩

omit [DecidableEq E] in
theorem cancelExpired_besidesProgress (env : Env F E) (started : Identifier) (tip : Nat)
    (txs : List (TxLogEntry E)) :
    (Owner.cancelExpired env started tip txs).MadeOf BesidesProgress :=
  Thread.MadeOf.forEach fun _ _ => Thread.MadeOf.atomic ⟨rfl, cancelActive_sameProgress env _ _⟩

theorem updateOutputs_besidesProgress (env : Env F E) (started : Option Identifier) (all : Bool) :
    (Owner.updateOutputs env started all).MadeOf BesidesProgress :=
  Thread.MadeOf.atomic ⟨rfl, refreshActive_sameProgress env all⟩

omit [CommRing F] [AddCommGroup E] [Module F E] [DecidableEq E] in
theorem lookUpKernels_besidesProgress (env : Env F E) (started account : Identifier) (height : Nat)
    (txs : List (TxLogEntry E)) :
    (Owner.lookUpKernels env started account height txs).MadeOf BesidesProgress := by
  induction txs with
  | nil => trivial
  | cons tx txs ih =>
      unfold Owner.lookUpKernels
      cases Owner.kernelToLookUp tx with
      | none => exact ih.andThen fun _ => trivial
      | some excess =>
          refine Thread.MadeOf.andThen (Thread.MadeOf.atomic ⟨rfl, (ask_sameProgress _).attempt⟩)
            fun kernel => ?_
          cases kernel with
          | error e => trivial
          | ok found =>
              cases found with
              | none => exact ih.andThen fun _ => trivial
              | some position =>
                  refine Thread.MadeOf.andThen (Thread.MadeOf.atomic ⟨rfl, ?_⟩) fun t =>
                    ih.andThen fun _ => trivial
                  exact (ask_sameProgress _).bind fun now => Eff.Moves.bind
                    (fun _ => ⟨rfl, rfl⟩) fun _ => Eff.Moves.pure _

omit [CommRing F] [AddCommGroup E] [Module F E] [DecidableEq E] in
theorem updateTxsViaKernel_besidesProgress (env : Env F E) (started : Identifier)
    (txs : List (TxLogEntry E)) :
    (Owner.updateTxsViaKernel env started txs).MadeOf BesidesProgress := by
  refine Thread.MadeOf.andThen (Thread.MadeOf.atomic ⟨rfl, Eff.Moves.read⟩) fun w => ?_
  refine Thread.MadeOf.andThen (Thread.MadeOf.atomic ⟨rfl, (ask_sameProgress _).attempt⟩) fun tip => ?_
  cases tip with
  | error e => trivial
  | ok tip => exact lookUpKernels_besidesProgress env _ _ _ txs

omit [CommRing F] [AddCommGroup E] [Module F E] [DecidableEq E] in
theorem scannedBlock_of_same {w w' : WalletBackend F E} (h : SameProgress w w')
    (tip : Nat × String) : Owner.scannedBlock w'.store tip = Owner.scannedBlock w.store tip := by
  unfold Owner.scannedBlock
  rw [h.1, h.2]

namespace ScanProgram

variable {env : Env F E}

theorem begin_besidesProgress (p : ScanProgram) : (p.begin env).MadeOf BesidesProgress := by
  cases p with
  | scan startHeight deleteUnconfirmed =>
      refine (updateOutputs_besidesProgress env none true).andThen fun _ => ?_
      exact Thread.MadeOf.andThen (Thread.MadeOf.atomic ⟨rfl, ask_sameProgress _⟩) fun _ => trivial
  | update updateAll =>
      refine Thread.MadeOf.andThen (Thread.MadeOf.atomic ⟨rfl, Eff.Moves.read⟩) fun w => ?_
      refine (updateOutputs_besidesProgress env _ _).andThen fun updated => ?_
      cases updated with
      | false => trivial
      | true =>
          refine Thread.MadeOf.andThen (Thread.MadeOf.atomic ⟨rfl, Eff.Moves.read⟩) fun w' => ?_
          refine (updateTxsViaKernel_besidesProgress env _ _).andThen fun result => ?_
          cases result with
          | none => trivial
          | some txs =>
              refine Thread.MadeOf.andThen
                (Thread.MadeOf.atomic ⟨rfl, (ask_sameProgress _).attempt⟩) fun tip => ?_
              cases tip with
              | error e => trivial
              | ok tip =>
                  exact Thread.MadeOf.andThen (Thread.MadeOf.atomic ⟨rfl, Eff.Moves.read⟩)
                    fun _ => trivial

/-- Wherever a program is stopped, its progress is that of the batches it has saved. -/
theorem thread_along {p : ScanProgram} (fuel : Nat) {w w₁ : WalletBackend F E} {b : ScanStart E}
    (hbegin : (p.begin env).run w = (.ok (some b), w₁))
    (hfit : Owner.HeightsFit b.startHeight b.tip.1) :
    (p.thread env fuel).Along Hold.savesProgress
      (Progress p.mark b.startHeight b.tip.1 w.store)
      (fun _ k _ => k = (Owner.heightBatches b.startHeight b.tip.1).length) 0 w := by
  have hstart : Progress p.mark b.startHeight b.tip.1 w.store 0 w :=
    ⟨fun _ => ⟨rfl, rfl⟩, fun h => by omega⟩
  rw [thread_eq]
  refine (p.begin_besidesProgress.along (fun β label body => BesidesProgress.keeps β label body)
    hstart).andThen ?_
  intro b? k m hrun hm hk
  subst hk
  obtain ⟨rfl, rfl⟩ : b? = some b ∧ m = w₁ := by
    rw [hbegin] at hrun
    cases hrun
    exact ⟨rfl, rfl⟩
  have hfirst : Owner.heightBatches b.startHeight b.tip.1 =
      Owner.batchStarts (b.startHeight + 0 * 10001) b.tip.1 := by
    rw [Nat.zero_mul, Nat.add_zero, Owner.heightBatches_of_fit hfit]
  have hbatches := scanBatches_along env p.saves fuel p.deletes hfit w.store hfirst none hm
  refine hbatches.andThen fun u k m' _ hm' hk => ?_
  rw [Nat.zero_add] at hk
  subst hk
  cases b.expiring with
  | none => exact ⟨hm', rfl⟩
  | some expiring =>
      exact (cancelExpired_besidesProgress env expiring.1 b.tip.1 expiring.2).along
        (fun β label body => BesidesProgress.keeps β label body) hm'

/-- An update goes on from what the wallet has saved. -/
theorem beginUpdate_startHeight {updateAll : Bool} {w w' : WalletBackend F E} {b : ScanStart E}
    (h : (Owner.beginUpdate env updateAll).run w = (.ok (some b), w')) :
    b.startHeight = (Owner.scannedBlock w.store b.tip).height - Owner.reorgRescanWindow := by
  have hpart : ∀ {α : Type} {t : WalletThread F E α} {k : Nat} {m : WalletBackend F E},
      t.MadeOf BesidesProgress → SameProgress w m →
        t.Along Hold.savesProgress (fun _ => SameProgress w) (fun _ k' _ => k' = k) k m :=
    fun ht hm => ht.along (fun _ _ _ hbody =>
      ⟨hbody.1, fun m hm => IsTrans.trans _ _ _ hm (hbody.2 m)⟩) hm
  have halong : (Owner.beginUpdate env updateAll).Along Hold.savesProgress
      (fun _ => SameProgress w) (fun b? _ _ => ∀ b, b? = some b → b.startHeight =
        (Owner.scannedBlock w.store b.tip).height - Owner.reorgRescanWindow) 0 w := by
    refine (hpart (Thread.MadeOf.atomic ⟨rfl, Eff.Moves.read⟩) (Std.Refl.refl w)).andThen
      fun w₁ _ m _ hm _ => ?_
    refine (hpart (updateOutputs_besidesProgress env _ _) hm).andThen fun updated _ m _ hm _ => ?_
    cases updated with
    | false => exact ⟨hm, fun b hb => nomatch hb⟩
    | true =>
        refine (hpart (Thread.MadeOf.atomic ⟨rfl, Eff.Moves.read⟩) hm).andThen
          fun w₂ _ m _ hm _ => ?_
        refine (hpart (updateTxsViaKernel_besidesProgress env _ _) hm).andThen
          fun result _ m _ hm _ => ?_
        cases result with
        | none => exact ⟨hm, fun b hb => nomatch hb⟩
        | some txs =>
            refine (hpart (Thread.MadeOf.atomic ⟨rfl, (ask_sameProgress _).attempt⟩) hm).andThen
              fun tip _ m _ hm _ => ?_
            cases tip with
            | error e => exact ⟨hm, fun b hb => nomatch hb⟩
            | ok tip =>
                refine (hpart (Thread.MadeOf.atomic ⟨rfl, Eff.Moves.read⟩) hm).andThen
                  fun w₃ _ m' hrun hm' _ => ⟨hm', fun b hb => ?_⟩
                rw [Thread.run_atomic] at hrun
                obtain ⟨rfl, -⟩ := Eff.read_eq_ok.mp hrun
                cases hb
                rw [scannedBlock_of_same hm]
  obtain ⟨-, -, hstart⟩ := halong.returned h
  exact hstart b rfl

/-- How many batches the first `n` sections of a program have saved. -/
def savedFor (env : Env F E) (fuel : Nat) (p : ScanProgram) (n : Nat) (w : WalletBackend F E) : Nat :=
  (p.thread env fuel).countFor Hold.savesProgress n w

/-- The wallet a program leaves when it stops after `n` sections. -/
def stoppedAt (env : Env F E) (fuel : Nat) (p : ScanProgram) (n : Nat) (w : WalletBackend F E) :
    WalletBackend F E :=
  ((p.thread env fuel).runFor n w).2

end ScanProgram

/-! ## Meeting every height once -/

/-- A program with its batches at `b` meets the chain once, and the update that comes
to its batches at `b'` goes on where the program stopped after `n` sections. -/
structure ScanCovers (env : Env F E) (chain : OutputIndex E) (fuel : Nat) (p : ScanProgram)
    (w : WalletBackend F E) (b : ScanStart E) (n : Nat) (b' : ScanStart E) : Prop where
  /-- Every height from the first to the tip is in one batch, once. -/
  heights : (Owner.heightBatches b.startHeight b.tip.1).flatMap
      (fun h => List.range' h (Owner.batchEnd b.tip.1 h + 1 - h)) =
    List.range' b.startHeight (b.tip.1 + 1 - b.startHeight)
  /-- Every unspent output of these heights is in the range of one batch, once. -/
  outputs : (Owner.heightBatches b.startHeight b.tip.1).flatMap
      (fun h => chain.between (chain.size h + 1) (chain.size (Owner.batchEnd b.tip.1 h + 1))) =
    chain.between (chain.size b.startHeight + 1) (chain.size (b.tip.1 + 1))
  /-- Reading the range of a batch ends, with each of its unspent outputs identified once. -/
  read : ∀ h ∈ Owner.heightBatches b.startHeight b.tip.1, ∀ m : WalletBackend F E, ∃ tick first last,
    (env.node m.tick).heightRangeToPmmrIndices h (some (Owner.batchEnd b.tip.1 h)) =
        .ok (first, last) ∧
      first = chain.size h + 1 ∧ last = chain.size (Owner.batchEnd b.tip.1 h + 1) ∧
      (Scan.collectChainOutputs env last fuel first).run m =
        ((Scan.identifyUtxoOutputs env.keychain env.consensus (chain.between first last)).map
          (·, last), { m with tick := tick })
  /-- A program that is done with its batches has saved the tip. -/
  lastSaved : b.startHeight ≤ b.tip.1 → ∀ w', (p.thread env fuel).run w = (.ok (), w') →
    w'.store.lastScannedBlock.map (·.height) = some b.tip.1
  /-- The next update does not go past the first height left. -/
  resumes : b'.startHeight ≤ firstUnscanned b.startHeight b.tip.1 (p.savedFor env fuel n w)

omit [CommRing F] [AddCommGroup E] [Module F E] [DecidableEq E] in
theorem scannedBlock_height_of_new {s : Store E} {tip : Nat × String}
    (h : s.initStatus = some .InitNoScanning) : (Owner.scannedBlock s tip).height = tip.1 := by
  simp [Owner.scannedBlock, h]

omit [CommRing F] [AddCommGroup E] [Module F E] [DecidableEq E] in
theorem scannedBlock_height_of_saved {s : Store E} {tip : Nat × String} {height : Nat}
    (h : s.initStatus ≠ some .InitNoScanning)
    (hheight : s.lastScannedBlock.map (·.height) = some height) :
    (Owner.scannedBlock s tip).height = height := by
  obtain ⟨info, hinfo, rfl⟩ := Option.map_eq_some_iff.mp hheight
  unfold Owner.scannedBlock
  cases hstatus : s.initStatus with
  | none => simp [hinfo]
  | some status => cases status <;> simp_all

end Programs

/-! ## A scan stopped on a new wallet -/

namespace SampleScan

/-- An output of the `n`-th key of the default account. -/
def output (n value height : Nat) : ChainOutput (ℤ × ℤ) where
  commit := sampleKeychain.commit value (defaultPath.child n)
  proof := 0
  isCoinbase := false
  height := height
  mmrIndex := n

/-- One output at each of the heights 1 to 3, of which the second is spent, and one at
height 15000. -/
def chain : OutputIndex (ℤ × ℤ) where
  size h := min (h - 1) 3 + if 15000 < h then 1 else 0
  mono a b hab := by
    show min (a - 1) 3 + _ ≤ min (b - 1) 3 + _
    split <;> split <;> omega
  unspent i :=
    match i with
    | 1 => some (output 1 500 1)
    | 3 => some (output 3 700 3)
    | 4 => some (output 4 900 15000)
    | _ => none

/-- A node at height 20000 of that chain, with one position on each page. -/
def node : NodeClient ℤ (ℤ × ℤ) := { sampleNode [] [] with
  getChainTip := .ok (20000, "tip")
  heightRangeToPmmrIndices := fun h e =>
    .ok (chain.size h + 1, chain.size (e.getD 20000 + 1))
  getOutputsByPmmrIndex := fun first last _ =>
    let last := last.getD 4
    .ok (last, min first last, chain.between first (min first last)) }

def env : Env ℤ (ℤ × ℤ) := sampleEnv fun _ => node

theorem chain_size_lt (h : Nat) : chain.size h < 2 ^ 64 := by
  show min (h - 1) 3 + (if 15000 < h then 1 else 0) < 2 ^ 64
  split <;> omega

theorem serves : Serves env.node chain where
  range _ _ _ _ := rfl
  page _ first last _ := ⟨min first last, le_refl _, min_le_right _ _, rfl⟩

/-- A wallet made from no seed phrase, which has nothing to find on the chain. -/
def new : WalletBackend ℤ (ℤ × ℤ) :=
  let w := sampleWallet []
  { w with store := w.store.saveInitStatus .InitNoScanning }

def fullScan : ScanProgram := .scan none false

/-- The scan of the whole chain, with its tip known. -/
def start : ScanStart (ℤ × ℤ) := ⟨(20000, "tip"), 1, none⟩

/-- The next update, which starts 2880 below the tip. -/
def resumed : ScanStart (ℤ × ℤ) := ⟨(20000, "tip"), 17120, some (defaultPath, [])⟩

/-- An update of a wallet never scanned before. -/
def update : ScanProgram := .update false

def updateStart : ScanStart (ℤ × ℤ) := ⟨(20000, "tip"), 0, some (defaultPath, [])⟩

def updateResumed : ScanStart (ℤ × ℤ) := ⟨(20000, "tip"), 7120, some (defaultPath, [])⟩

end SampleScan

end GrinWallet
