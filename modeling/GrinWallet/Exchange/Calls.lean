import GrinWallet.Exchange.Rounds
import GrinWallet.Selection.Building

/-! # The calls of an exchange

What each call of an exchange leaves for the next: an initiator's call leaves a
slate with its own unsigned entry and a context for it, a responder's call
leaves the slate with nothing but its own signed entry.
-/

namespace GrinWallet

open Effect WalletBackend OrderedTable

variable {F E : Type} [CommRing F] [AddCommGroup E] [Module F E] [DecidableEq E]

/-! ## Between two calls -/

section Keep

omit [CommRing F] [AddCommGroup E] [Module F E] [DecidableEq E]

/-- What stays between two calls of an exchange: the context of its slate, and
every record under its key and of its kind. -/
structure Kept (slateId : Uuid) (w w' : WalletBackend F E) : Prop where
  context : w'.store.contexts slateId = w.store.contexts slateId
  records : ∀ o ∈ w.store.outputs, ∃ o' ∈ w'.store.outputs,
    o'.key = o.key ∧ o'.isCoinbase = o.isCoinbase

theorem Kept.refl (slateId : Uuid) (w : WalletBackend F E) : Kept slateId w w :=
  ⟨rfl, fun o ho => ⟨o, ho, rfl, rfl⟩⟩

theorem Kept.trans {slateId : Uuid} {w w' w'' : WalletBackend F E} (h : Kept slateId w w')
    (h' : Kept slateId w' w'') : Kept slateId w w'' := by
  refine ⟨h'.context.trans h.context, fun o ho => ?_⟩
  obtain ⟨o', ho', hkey, hkind⟩ := h.records o ho
  obtain ⟨o'', ho'', hkey', hkind'⟩ := h'.records o' ho'
  exact ⟨o'', ho'', hkey'.trans hkey, hkind'.trans hkind⟩

theorem Kept.getPrivateContext {slateId : Uuid} {w w' : WalletBackend F E}
    (h : Kept slateId w w') (K : Keychain F E) :
    w'.store.getPrivateContext K slateId = w.store.getPrivateContext K slateId := by
  rw [Store.getPrivateContext, Store.getPrivateContext, h.context]

theorem Kept.find {slateId : Uuid} {w w' : WalletBackend F E} (h : Kept slateId w w')
    {p : Identifier × Option Nat × Nat} (hp : Held w.store p) :
    Held w'.store p ∧ (w'.store.outputs.find (outputKey p.1 p.2.1)).any (·.isCoinbase)
      = (w.store.outputs.find (outputKey p.1 p.2.1)).any (·.isCoinbase) := by
  obtain ⟨o, ho⟩ := hp
  obtain ⟨hmem, hkey⟩ := Table.find_eq_some.mp ho
  obtain ⟨o', hmem', hkey', hkind⟩ := h.records o hmem
  have ho' : w'.store.outputs.find (outputKey p.1 p.2.1) = some o' :=
    Table.find_eq_some.mpr ⟨hmem', hkey'.trans hkey⟩
  exact ⟨⟨o', ho'⟩, by rw [ho, ho', Option.any_some, Option.any_some, hkind]⟩

theorem Kept.recorded {slateId : Uuid} {w w' : WalletBackend F E} (h : Kept slateId w w')
    {id : Identifier} (hid : recorded w.store id = true) : recorded w'.store id = true := by
  obtain ⟨o, ho, hkey⟩ := recorded_iff.mp hid
  obtain ⟨o', ho', hkey', -⟩ := h.records o ho
  have hids : o'.keyId = o.keyId := (outputKey_inj.mp hkey').1
  exact recorded_iff.mpr ⟨o', ho', hids.trans hkey⟩

theorem Kept.lasting {slateId : Uuid} {w w' : WalletBackend F E} (h : Kept slateId w w')
    {id : Identifier} (hid : Lasting w.store id) : Lasting w'.store id := by
  obtain ⟨o, ho, hkey, hlasts⟩ := hid
  obtain ⟨o', ho', hkey', hkind⟩ := h.records o ho
  obtain ⟨hids, hindex⟩ := outputKey_inj.mp hkey'
  refine ⟨o', ho', hids.trans hkey, ?_⟩
  rw [hkind, hindex]
  exact hlasts

end Keep

omit [DecidableEq E] in
/-- A held input is restored to the same input later. -/
theorem Kept.inputFor {slateId : Uuid} {w w' : WalletBackend F E} (h : Kept slateId w w')
    (K : Keychain F E) {p : Identifier × Option Nat × Nat} (hp : Held w.store p) :
    inputFor K w'.store p = inputFor K w.store p := by
  rw [GrinWallet.inputFor, GrinWallet.inputFor, (h.find hp).2]

section Account

omit [CommRing F] [AddCommGroup E] [Module F E] [DecidableEq E]

namespace WalletBackend

/-- The account an optional name selects. -/
def accountNamed (w : WalletBackend F E) (name : Option Label) : Identifier :=
  match name with
  | some d =>
      match w.store.getAcctPath d with
      | some p => p.path
      | none => w.parentKeyId
  | none => w.parentKeyId

theorem run_accountOrActive (name : Option Label) (w : WalletBackend F E) :
    accountOrActive name w = (.ok (w.accountNamed name), w) := by
  cases name with
  | none => rfl
  | some d =>
      cases hd : w.store.getAcctPath d with
      | none => simp [accountOrActive, accountNamed, Eff.run_bind, hd]
      | some p => simp [accountOrActive, accountNamed, Eff.run_bind, hd]

end WalletBackend

end Account

/-! ## Opening an exchange -/

/-- A slate nobody has joined. -/
structure Blank (s : Slate F E) : Prop where
  tx : s.tx = some Slate.emptyTransaction
  participants : s.participantData = []
  count : s.participantCount = 2
  plain : s.kernelFeatures = 0
  offset : s.offset = 0

/-- A slate its initiator alone has joined, and the context it keeps for it. -/
structure Opened (K : Curve F E) (d : SecretKey × SecretKey) (s : Slate F E) (c : Context E) :
    Prop where
  participants : s.participantData = [entry K d none]
  count : s.participantCount = 2
  plain : s.kernelFeatures = 0
  offset : s.offset = 0
  drawn : c.Drawn d
  amount : c.amount = s.amount

/-- A slate with the responder's signed entry alone, its elements and its offset. -/
structure Answered (K : Curve F E) (d d' : SecretKey × SecretKey) (fee : FeeFields)
    (ins : List (Input E)) (outs : List (Output E)) (offset : F) (s : Slate F E) : Prop where
  participants : s.participantData = [entry K d' (some (Slate.jointSig K d d' d' fee))]
  count : s.participantCount = 2
  plain : s.kernelFeatures = 0
  offset_eq : s.offset = offset
  tx : ∃ tx, s.tx = some tx ∧ tx.inputs = ins ∧ tx.outputs = outs

omit [AddCommGroup E] [Module F E] [DecidableEq E] in
theorem Tx.newTxSlate_blank (env : Env F E) (amount : Nat) (isInvoice : Bool)
    (ttlBlocks : Option Nat) : Eff.Yields (newTxSlate env amount isInvoice 2 ttlBlocks) Blank := by
  refine Eff.Yields.bind_of_forall fun tip => Eff.Yields.bind_of_forall fun id => ?_
  exact Eff.Yields.pure ⟨rfl, rfl, rfl, rfl, rfl⟩

omit [CommRing F] [AddCommGroup E] [Module F E] [DecidableEq E] in
theorem Context.Drawn.pair {d : SecretKey × SecretKey} {c : Context E} (h : c.Drawn d) :
    (c.secKey, c.secNonce) = d := by
  obtain ⟨hkey, hnonce, -, -⟩ := h
  exact Prod.ext hkey hnonce

namespace Tx

variable {env : Env F E} {d : SecretKey × SecretKey} {slate s : Slate F E} {c : Context E}
  {height : Nat} {args : InitTxArgs} {p : Identifier} {inc : Bool} {w w' : WalletBackend F E}

theorem addInputsToSlate_opens (hb : Blank slate)
    (h : addInputsToSlate (env.drawing d) slate height args p true inc w = (.ok (s, c), w')) :
    Opened env.keychain.toCurve d s c ∧ c.fee = some s.feeFields ∧ c.lateLockArgs = none
      ∧ s.id = slate.id := by
  obtain ⟨_, w₁, h₁, h₂⟩ := Eff.bind_eq_ok.mp h
  obtain ⟨⟨s₁, c₁⟩, w₂, hbuild, h₃⟩ := Eff.bind_eq_ok.mp h₂
  obtain ⟨tx, amount, fee, ins, outs, -, -, -, rfl, rfl⟩ :=
    Selection.buildSendTx_eq_ok hbuild hb.plain
  cases h₃
  refine ⟨⟨?_, hb.count, hb.plain, hb.offset, ⟨rfl, rfl, rfl, rfl⟩, rfl⟩, rfl, rfl, rfl⟩
  exact Slate.addParticipantInfo_nil hb.participants rfl

theorem createLateLockContext_opens (hb : Blank slate)
    (h : createLateLockContext (env.drawing d) slate height args p w = (.ok (s, c), w')) :
    Opened env.keychain.toCurve d s c ∧ c.fee = some s.feeFields ∧ s.id = slate.id := by
  obtain ⟨_, w₁, h₁, h₂⟩ := Eff.bind_eq_ok.mp h
  obtain ⟨_, w₂, h₃, h₄⟩ := Eff.bind_eq_ok.mp h₂
  obtain ⟨⟨coins, total, amount, fee⟩, w₃, h₅, h₆⟩ := Eff.bind_eq_ok.mp h₄
  obtain ⟨feeFields, w₄, h₇, h₈⟩ := Eff.bind_eq_ok.mp h₆
  obtain ⟨c₁, w₅, h₉, hend⟩ := Eff.bind_eq_ok.mp h₈
  have hc₁ := newContext_drawn env d p _ _ _ h₉
  cases hend
  refine ⟨⟨?_, hb.count, hb.plain, hb.offset, hc₁, rfl⟩, rfl, rfl⟩
  exact Slate.addParticipantInfo_nil hb.participants hc₁.pair

theorem addOutputToSlate_opens (hb : Blank slate)
    (h : addOutputToSlate (env.drawing d) slate height p true w = (.ok (s, c), w')) :
    Opened env.keychain.toCurve d s c ∧ s.id = slate.id ∧ s.feeFields = slate.feeFields ∧
      c.lateLockArgs = none ∧ c.inputIds = [] ∧
      ∃ id, id = w.parentKeyId.child (w.store.childIndex w.parentKeyId) ∧
        c.outputIds = [(id, none, s.amount)] ∧ Lasting w'.store id := by
  obtain ⟨⟨s₁, id, c₁, t⟩, w₁, hbuild, hend⟩ := Eff.bind_eq_ok.mp h
  obtain ⟨tx, -, hid, rfl, rfl, hlasting, -⟩ := Selection.buildRecipientOutput_eq_ok hbuild hb.plain
  cases hend
  refine ⟨⟨?_, hb.count, hb.plain, hb.offset, ⟨rfl, rfl, rfl, rfl⟩, rfl⟩, rfl, rfl, rfl, rfl,
    id, hid, rfl, hlasting⟩
  exact Slate.addParticipantInfo_nil hb.participants rfl

/-- A payee who responds signs, and leaves its output and its share of the offset. -/
theorem addOutputToSlate_answers {d' : SecretKey × SecretKey}
    (h : addOutputToSlate (env.drawing d') slate height p false w = (.ok (s, c), w'))
    (hp : slate.participantData = [entry env.keychain.toCurve d none])
    (hcount : slate.participantCount = 2) (hplain : slate.kernelFeatures = 0)
    (htx : slate.tx = some Slate.emptyTransaction) (hne : Apart env.keychain.toCurve d d') :
    ∃ id tx, id = w.parentKeyId.child (w.store.childIndex w.parentKeyId) ∧ tx.inputs = [] ∧
      tx.outputs = [outputFor env.keychain (id, none, slate.amount)] ∧
      c.Drawn d' ∧ c.inputIds = [] ∧ c.outputIds = [(id, none, slate.amount)] ∧
      s = { slate with
        tx := some tx
        participantData := [entry env.keychain.toCurve d none, entry env.keychain.toCurve d'
          (some (Slate.jointSig env.keychain.toCurve d d' d' slate.feeFields))] } := by
  obtain ⟨⟨s₁, id, c₁, t⟩, w₁, hbuild, hrest⟩ := Eff.bind_eq_ok.mp h
  obtain ⟨tx, htx', hid, rfl, rfl, -, -⟩ := Selection.buildRecipientOutput_eq_ok hbuild hplain
  obtain ⟨s₂, w₂, hround, hrest₂⟩ := Eff.bind_eq_ok.mp hrest
  obtain ⟨excess, w₃, hexcess, hrest₃⟩ := Eff.bind_eq_ok.mp hrest₂
  have htx₀ : tx = Slate.emptyTransaction := Option.some.inj (htx'.symm.trans htx)
  have hs₂ := Slate.respond_two (Eff.ofExcept_eq_ok.mp hround).1 hp rfl hne hcount hplain
  cases hrest₃
  refine ⟨id, _, hid, ?_, ?_, ⟨rfl, rfl, rfl, rfl⟩, rfl, rfl, hs₂⟩
  · rw [htx₀]
    rfl
  · rw [htx₀]
    rfl

end Tx

namespace Owner

variable {env : Env F E} {d : SecretKey × SecretKey} {s : Slate F E} {w w' : WalletBackend F E}

omit [CommRing F] [AddCommGroup E] [Module F E] [DecidableEq E] in
/-- A proof request changes the proof of the slate and the index of the context alone. -/
theorem withProofRequest_eq (K : Keychain F E) (p : Identifier) (a : Option SlatepackAddress)
    (slate : Slate F E) (c : Context E) :
    ∃ proof index, withProofRequest K p a slate c
      = ({ slate with paymentProof := proof }, { c with paymentProofDerivationIndex := index }) := by
  cases a with
  | none => exact ⟨slate.paymentProof, c.paymentProofDerivationIndex, rfl⟩
  | some a => exact ⟨_, _, rfl⟩

/-- What a send begins with, and what it stores and returns. -/
theorem initSendTx_eq_ok {env : Env F E} {args : InitTxArgs} (hest : args.estimateOnly ≠ some true)
    (h : initSendTx env args w = (.ok s, w')) :
    ∃ slate w₁ tip w₂ s₁ c w₃,
      Tx.newTxSlate env args.amount false 2 args.ttlBlocks w = (.ok slate, w₁) ∧
      getChainTip env w₁ = (.ok tip, w₂) ∧
      beginSend env { slate with version := args.targetSlateVersion.getD slate.version } tip.1 args
          (w.accountNamed args.srcAcctName) w₂ = (.ok (s₁, c), w₃) ∧
      let r := withProofRequest env.keychain (w.accountNamed args.srcAcctName)
        args.paymentProofRecipientAddress s₁ c
      s = r.1.compact ∧
        w' = { w₃ with store := w₃.store.savePrivateContext env.keychain s.id r.2 } := by
  obtain ⟨_, w₁, h₁, h₂⟩ := Eff.bind_eq_ok.mp h
  obtain ⟨p, w₂, h₃, h₄⟩ := Eff.bind_eq_ok.mp h₂
  obtain ⟨slate, w₃, hnew, h₅⟩ := Eff.bind_eq_ok.mp h₄
  have hw₁ : w₁ = w := (Eff.throwIf_eq_ok.mp h₁).2
  rw [hw₁, run_accountOrActive] at h₃
  cases h₃
  simp only [if_neg hest] at h₅
  obtain ⟨tip, w₄, htip, h₆⟩ := Eff.bind_eq_ok.mp h₅
  obtain ⟨⟨s₁, c⟩, w₅, hbegin, h₇⟩ := Eff.bind_eq_ok.mp h₆
  cases h₇
  exact ⟨slate, w₃, tip, w₄, s₁, c, w₅, hnew, htip, hbegin, rfl, rfl⟩

theorem initSendTx_opens {args : InitTxArgs} (hest : args.estimateOnly ≠ some true)
    (h : initSendTx (env.drawing d) args w = (.ok s, w')) :
    ∃ c, w'.store.getPrivateContext env.keychain s.id = .ok c ∧
      Opened env.keychain.toCurve d s c ∧ c.fee = some s.feeFields ∧ s.tx = none ∧
      (args.lateLock.getD false = false → c.lateLockArgs = none) := by
  obtain ⟨slate, w₁, tip, w₂, s₁, c, w₃, hnew, -, hbegin, hs, hw'⟩ := initSendTx_eq_ok hest h
  have hb := Tx.newTxSlate_blank _ _ _ _ _ _ _ hnew
  have hversion : Blank { slate with version := args.targetSlateVersion.getD slate.version } :=
    ⟨hb.tx, hb.participants, hb.count, hb.plain, hb.offset⟩
  have hopen : Opened env.keychain.toCurve d s₁ c ∧ c.fee = some s₁.feeFields ∧
      (args.lateLock.getD false = false → c.lateLockArgs = none) := by
    unfold beginSend at hbegin
    by_cases hlate : args.lateLock.getD false
    · rw [if_pos hlate] at hbegin
      obtain ⟨ho, hfee, -⟩ := Tx.createLateLockContext_opens hversion hbegin
      exact ⟨ho, hfee, fun hnot => by simp [hnot] at hlate⟩
    · rw [if_neg hlate] at hbegin
      obtain ⟨ho, hfee, hargs, -⟩ := Tx.addInputsToSlate_opens hversion hbegin
      exact ⟨ho, hfee, fun _ => hargs⟩
  obtain ⟨ho, hfee, hargs⟩ := hopen
  obtain ⟨proof, index, hrequest⟩ := withProofRequest_eq (env.drawing d).keychain
    (w.accountNamed args.srcAcctName) args.paymentProofRecipientAddress s₁ c
  rw [hrequest] at hs hw'
  subst hw' hs
  exact ⟨_, Store.getPrivateContext_savePrivateContext _ _ _ _,
    ⟨ho.participants, ho.count, ho.plain, ho.offset, ho.drawn, ho.amount⟩, hfee, rfl, hargs⟩

theorem issueInvoiceTx_opens {args : IssueInvoiceTxArgs}
    (h : issueInvoiceTx (env.drawing d) args w = (.ok s, w')) :
    ∃ c id, w'.store.getPrivateContext env.keychain s.id = .ok c ∧
      Opened env.keychain.toCurve d s c ∧ s.tx = none ∧ c.lateLockArgs = none ∧
      c.inputIds = [] ∧ c.outputIds = [(id, none, s.amount)] ∧ Lasting w'.store id := by
  obtain ⟨p, w₁, h₁, h₂⟩ := Eff.bind_eq_ok.mp h
  obtain ⟨slate, w₂, hnew, h₃⟩ := Eff.bind_eq_ok.mp h₂
  obtain ⟨tip, w₃, h₄, h₅⟩ := Eff.bind_eq_ok.mp h₃
  obtain ⟨⟨s₁, c⟩, w₄, hadd, h₆⟩ := Eff.bind_eq_ok.mp h₅
  have hb := Tx.newTxSlate_blank _ _ _ _ _ _ _ hnew
  obtain ⟨ho, -, -, hlate, hins, id, -, houts, hlasting⟩ := Tx.addOutputToSlate_opens hb hadd
  cases h₆
  exact ⟨c, id, Store.getPrivateContext_savePrivateContext _ _ _ _,
    ⟨ho.participants, ho.count, ho.plain, ho.offset, ho.drawn, ho.amount⟩, rfl, hlate, hins,
    houts, hlasting⟩

omit [CommRing F] [AddCommGroup E] [Module F E] [DecidableEq E] in
theorem payerContext_keys (contextRes : Except Error (Context E)) (c : Context E) (excess : E) :
    (payerContext contextRes c excess).secKey = c.secKey ∧
      (payerContext contextRes c excess).secNonce = c.secNonce := by
  cases contextRes with
  | ok c' => exact ⟨rfl, rfl⟩
  | error e => exact ⟨rfl, rfl⟩

/-- A payer signs, adds its share to the offset, and restores the transaction
from the context it keeps. -/
theorem finishPayment_eq_ok {K : Keychain F E} {slateId : Uuid}
    {contextRes : Except Error (Context E)} {c : Context E} {d' : SecretKey × SecretKey}
    {s' : Slate F E} (hrun : finishPayment K slateId contextRes s c w = (.ok s', w'))
    (hp : s.participantData = [entry K.toCurve d none]) (hc : (c.secKey, c.secNonce) = d')
    (hne : Apart K.toCurve d d') (hcount : s.participantCount = 2) (hplain : s.kernelFeatures = 0) :
    ∃ tx excess,
      let own := contribution contextRes { c with initialSecKey := c.secKey }
      let kept := payerContext contextRes { c with initialSecKey := c.secKey } excess
      let parts := Selection.repopulateParts w.store kept
      let offset := s.offset - K.scalar d'.1 - Slate.blindSumOf K own.inputIds
        + Slate.blindSumOf K own.outputIds
      s.tx = some tx ∧ w'.store = w.store.savePrivateContext K slateId kept ∧
        s' = { s with
          state := .Invoice2
          amount := 0
          offset := offset
          participantData :=
            [entry K.toCurve d' (some (Slate.jointSig K.toCurve d d' d' s.feeFields))]
          tx := some
            { offset := offset
              inputs := insertAll tx.inputs (parts.filterMap (Append.input? K))
              outputs := insertAll tx.outputs (parts.filterMap (Append.output? K))
              kernels := [⟨.Plain s.feeFields, 0, ⟨0, 0⟩⟩] } } := by
  obtain ⟨s₁, w₁, h₁, h₂⟩ := Eff.bind_eq_ok.mp hrun
  obtain ⟨excess, w₂, h₃, h₄⟩ := Eff.bind_eq_ok.mp h₂
  obtain ⟨wr, w₃, h₅, h₆⟩ := Eff.bind_eq_ok.mp h₄
  obtain ⟨s₂, w₄, h₇, hend⟩ := Eff.bind_eq_ok.mp h₆
  obtain ⟨hround, hw₁⟩ := Eff.ofExcept_eq_ok.mp h₁
  obtain ⟨-, hw₂⟩ := Eff.ofExcept_eq_ok.mp h₃
  obtain ⟨hwr, hw₃⟩ := Eff.read_eq_ok.mp h₅
  obtain ⟨hrep, hw₄⟩ := Eff.ofExcept_eq_ok.mp h₇
  have hs₁ := Slate.respond_two hround hp hc hne hcount hplain
  have hw : wr = w ∧ w₄ = w := by
    constructor
    · rw [hwr, hw₂, hw₁]
    · rw [hw₄, hw₃, hw₂, hw₁]
  rw [hw.1] at hrep
  rw [hw.2] at hend
  have hplain₁ : s₁.kernelFeatures = 0 := by
    rw [hs₁]
    exact hplain
  obtain ⟨tx, fee, htx, hfee, hs₂⟩ := Slate.repopulateTx_plain hrep hplain₁
  have hfee' : fee = s.feeFields := by
    rw [hs₁] at hfee
    exact (Except.ok.inj hfee).symm
  have hkeys : ((payerContext contextRes { c with initialSecKey := c.secKey } excess).secKey,
      (payerContext contextRes { c with initialSecKey := c.secKey } excess).secNonce) = d' := by
    rw [(payerContext_keys _ _ _).1, (payerContext_keys _ _ _).2]
    exact hc
  have hjoined : s₁.participantData = [entry K.toCurve d none,
      entry K.toCurve d' (some (Slate.jointSig K.toCurve d d' d' s.feeFields))] := by
    rw [hs₁]
  have hdata : s₂.participantData = [entry K.toCurve d none,
      entry K.toCurve d' (some (Slate.jointSig K.toCurve d d' d' s.feeFields))] := by
    rw [hs₂]
    exact Slate.addParticipantInfo_two hjoined hkeys hne
  have hoffset : s₂.offset = s.offset - K.scalar d'.1
      - Slate.blindSumOf K (contribution contextRes { c with initialSecKey := c.secKey }).inputIds
      + Slate.blindSumOf K
        (contribution contextRes { c with initialSecKey := c.secKey }).outputIds := by
    have hinitial : (contribution contextRes
        { c with initialSecKey := c.secKey }).initialSecKey = d'.1 := by
      rw [← hc]
      cases contextRes with
      | ok c' => rfl
      | error e => rfl
    rw [hs₂, ← hinitial, hs₁]
    rfl
  refine ⟨tx, excess, ?_, ?_, ?_⟩
  · rw [← htx, hs₁]
    rfl
  · cases hend
    rfl
  · have hstripped : (({ s₂ with amount := 0 } : Slate F E).removeOtherSigdata K d'.2 d'.1).participantData
        = [entry K.toCurve d' (some (Slate.jointSig K.toCurve d d' d' s.feeFields))] :=
      Slate.removeOtherSigdata_two hdata hne
    have hend' := Except.ok.inj (congrArg Prod.fst hend)
    have hsec : (payerContext contextRes { c with initialSecKey := c.secKey } excess).secKey
        = d'.1 := congrArg Prod.fst hkeys
    have hnonce : (payerContext contextRes { c with initialSecKey := c.secKey } excess).secNonce
        = d'.2 := congrArg Prod.snd hkeys
    rw [hsec, hnonce] at hend'
    rw [← hoffset, ← hend', ← hstripped, hs₂, hs₁, hfee']
    rfl

/-- The context a payer builds, and the slate it returns. -/
theorem processInvoiceTx_eq_ok {args : InitTxArgs} {d' : SecretKey × SecretKey} {s' : Slate F E}
    (h : processInvoiceTx (env.drawing d') s args w = (.ok s', w'))
    (hp : s.participantData = [entry env.keychain.toCurve d none])
    (hne : Apart env.keychain.toCurve d d') (hcount : s.participantCount = 2)
    (hplain : s.kernelFeatures = 0) :
    ∃ (c : Context E) (excess : E) (fee : FeeFields) (ttl : Nat),
      let K := env.keychain
      let res := w.store.getPrivateContext K s.id
      let parts := Selection.repopulateParts w'.store (payerContext res c excess)
      let offset := s.offset - K.scalar d'.1 - Slate.blindSumOf K (contribution res c).inputIds
        + Slate.blindSumOf K (contribution res c).outputIds
      c.Drawn d' ∧ c.fee = some fee ∧ (∀ q ∈ c.inputIds, Held w'.store q) ∧
        w'.store.getPrivateContext K s.id = .ok (payerContext res c excess) ∧
        s' = { s with
          ttlCutoffHeight := ttl
          state := .Invoice2
          amount := 0
          feeFields := fee
          offset := offset
          participantData := [entry K.toCurve d' (some (Slate.jointSig K.toCurve d d' d' fee))]
          tx := some
            { offset := offset
              inputs := insertAll [] (parts.filterMap (Append.input? K))
              outputs := insertAll (insertAll [] (c.outputIds.map (outputFor K)))
                (parts.filterMap (Append.output? K))
              kernels := [⟨.Plain fee, 0, ⟨0, 0⟩⟩] } } := by
  rw [processInvoiceTx_split] at h
  obtain ⟨⟨res, s₁, c₀⟩, w₁, hbegin, hfinish⟩ := Eff.bind_eq_ok.mp h
  have hres := beginPayment_stored hbegin
  obtain ⟨_, v₁, h₁, h₂⟩ := Eff.bind_eq_ok.mp hbegin
  obtain ⟨p, v₂, h₃, h₄⟩ := Eff.bind_eq_ok.mp h₂
  obtain ⟨wr, v₃, h₅, h₆⟩ := Eff.bind_eq_ok.mp h₄
  obtain ⟨_, v₄, h₇, h₈⟩ := Eff.bind_eq_ok.mp h₆
  obtain ⟨tip, v₅, h₉, h₁₀⟩ := Eff.bind_eq_ok.mp h₈
  obtain ⟨_, v₆, h₁₁, h₁₂⟩ := Eff.bind_eq_ok.mp h₁₀
  obtain ⟨⟨s₂, c₁⟩, v₇, hbuild, hend⟩ := Eff.bind_eq_ok.mp h₁₂
  obtain ⟨tx, amount, fee, ins, outs, htx, hheld, -, hs₁, hc₀⟩ :=
    Selection.buildSendTx_eq_ok hbuild hplain
  cases hend
  have htx₀ : tx = Slate.emptyTransaction := (Option.some.inj htx).symm
  have hp₂ : s₁.participantData = [entry env.keychain.toCurve d none] := by
    rw [hs₁]
    exact hp
  have hcount₂ : s₁.participantCount = 2 := by
    rw [hs₁]
    exact hcount
  have hplain₂ : s₁.kernelFeatures = 0 := by
    rw [hs₁]
    exact hplain
  obtain ⟨tx', excess, htx', hstore, hs'⟩ := finishPayment_eq_ok hfinish hp₂ rfl hne hcount₂ hplain₂
  have hout : tx'.outputs = insertAll [] (outs.map (outputFor env.keychain)) ∧ tx'.inputs = [] := by
    rw [hs₁] at htx'
    rw [← Option.some.inj htx', htx₀]
    exact ⟨rfl, rfl⟩
  refine ⟨c₀.redrawn d', excess, fee, s₁.ttlCutoffHeight, ⟨rfl, rfl, rfl, rfl⟩, ?_, ?_, ?_, ?_⟩
  · rw [hc₀]
    rfl
  · rw [hstore]
    intro q hq
    rw [hc₀] at hq
    exact hheld q hq
  · rw [hstore, Store.getPrivateContext_savePrivateContext, ← hres]
    rfl
  · rw [hs', hstore, ← hres, hout.1, hout.2, hs₁, hc₀]
    rfl

end Owner

namespace Foreign

variable {env : Env F E} {d d' : SecretKey × SecretKey} {s s' : Slate F E}
  {w w' : WalletBackend F E}

/-- A recipient leaves its output, its share of the offset and its signature. -/
theorem receiveTx_answers {destAcctName : Option Label}
    (hp : s.participantData = [entry env.keychain.toCurve d none])
    (hcount : s.participantCount = 2) (hplain : s.kernelFeatures = 0) (hoff : s.offset = 0)
    (hne : Apart env.keychain.toCurve d d')
    (h : receiveTx (env.drawing d') s destAcctName w = (.ok s', w')) :
    let id := w.parentKeyId.child (w.store.childIndex w.parentKeyId)
    Answered env.keychain.toCurve d d' s.feeFields [] [outputFor env.keychain (id, none, s.amount)]
      (env.keychain.deriveKey s.amount id - env.keychain.scalar d'.1) s' ∧
      s'.id = s.id ∧ s'.state = .Standard2 := by
  obtain ⟨_, w₁, h₁, h₂⟩ := Eff.bind_eq_ok.mp h
  obtain ⟨p, w₂, h₃, h₄⟩ := Eff.bind_eq_ok.mp h₂
  obtain ⟨wr, w₃, h₅, h₆⟩ := Eff.bind_eq_ok.mp h₄
  obtain ⟨_, w₄, h₇, h₈⟩ := Eff.bind_eq_ok.mp h₆
  obtain ⟨⟨s₁, c⟩, w₅, hadd, h₉⟩ := Eff.bind_eq_ok.mp h₈
  obtain ⟨excess, w₆, h₁₀, h₁₁⟩ := Eff.bind_eq_ok.mp h₉
  obtain ⟨_, w₇, h₁₂, hend⟩ := Eff.bind_eq_ok.mp h₁₁
  have hw₁ := Owner.checkTtl_state h₁
  have hw₂ := Owner.accountOrActive_state h₃
  have hw₃ := (Eff.read_eq_ok.mp h₅).2
  have hw₄ := (Eff.throwIf_eq_ok.mp h₇).2
  have hw : w₄ = w := by rw [hw₄, hw₃, hw₂, hw₁]
  rw [hw] at hadd
  obtain ⟨id, tx, hid, hins, houts, hdrawn, hcin, hcout, hs₁⟩ :=
    Tx.addOutputToSlate_answers hadd hp hcount hplain rfl hne
  obtain ⟨hkey, hnonce, hinitial, -⟩ := hdrawn
  cases hend
  refine ⟨⟨?_, ?_, ?_, ?_, tx, ?_, hins, ?_⟩, ?_, rfl⟩
  · have hdata : s₁.participantData = [entry env.keychain.toCurve d none,
        entry env.keychain.toCurve d'
          (some (Slate.jointSig env.keychain.toCurve d d' d' s.feeFields))] := by
      rw [hs₁]
    rw [hkey, hnonce]
    exact Slate.removeOtherSigdata_two hdata hne
  · rw [hs₁]
    exact hcount
  · rw [hs₁]
    exact hplain
  · change s₁.offset - env.keychain.scalar c.initialSecKey
        - Slate.blindSumOf env.keychain c.inputIds + Slate.blindSumOf env.keychain c.outputIds
      = _
    rw [hinitial, hcin, hcout, hs₁, ← hid]
    simp [Slate.blindSumOf, hoff]
    ring
  · rw [hs₁]
    rfl
  · rw [← hid]
    exact houts
  · rw [hs₁]
    rfl

end Foreign

end GrinWallet
