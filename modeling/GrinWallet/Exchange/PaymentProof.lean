import GrinWallet.Exchange.Retry
import GrinWallet.Exchange.Undo
import GrinWallet.Exchange.Signing

/-! # The payment proof of a send

A recipient signs the payment proof a slate asks for with the address key of the
account that receives, under whichever address the slate names. The sender
verifies the signature under that address, over the amount, the final excess and
its own address.
-/

namespace GrinWallet

open Effect WalletBackend OrderedTable

variable {F E : Type}

/-- An ideal signature scheme: a signature verifies under the public key of its
secret key and for its message, and under nothing else. -/
structure Curve.IdealSignatures (K : Curve F E) : Prop where
  verify_sign : ∀ (pk : DalekPublicKey) (m : PaymentProofMessage E) (sk : SecretKey)
    (m' : PaymentProofMessage E),
    K.dalekVerify pk m (K.dalekSign sk m') = true ↔ pk = K.dalekPublicKey sk ∧ m = m'

variable [CommRing F] [AddCommGroup E] [Module F E] [DecidableEq E]

namespace Slate

/-! ## The key sum through the completion of a slate -/

/-- A completed slate has the excess of the entries it was completed with. -/
theorem completeTx_excess {K : Keychain F E} {C : Consensus F E} {s s' : Slate F E} {c : Context E}
    (h : Tx.completeTx K C s c = .ok s') :
    s'.calcExcess = .ok (s.participantData.map (·.publicBlindExcess)).sum ∧
      s'.paymentProof = s.paymentProof ∧ s'.amount = s.amount ∧ s'.id = s.id ∧
      ∃ tx, s'.tx = some tx := by
  unfold Tx.completeTx at h
  obtain ⟨s₁, hround, h⟩ := except_bind_eq_ok.mp h
  obtain ⟨nonces, blinds, msg, ps, -, -, hblinds, -, hps, rfl⟩ := fillRound2_eq_ok hround
  obtain ⟨sig, -, hfinal⟩ := except_bind_eq_ok.mp h
  obtain ⟨tx, kernel, excess, htx, hkernel, hexcess, rfl⟩ := finalizeTransaction_eq_ok hfinal
  refine ⟨?_, rfl, rfl, rfl, _, rfl⟩
  have hsum := pubBlindSum_eq_ok hexcess
  rw [show ({ s with participantData := ps } : Slate F E).participantData = ps from rfl,
    setPartSig_excesses hps] at hsum
  rw [← hsum]
  exact hexcess

theorem others_one {K : Curve F E} {s : Slate F E} {d d' : SecretKey × SecretKey}
    {sig : Option (Signature F E)} (hs : s.participantData = [entry K d sig]) :
    s.others K d' = if Apart K d d' then [entry K d sig] else [] := by
  have hown : OwnEntry K d' (entry K d sig) ↔ ¬ Apart K d d' := not_not.symm
  rw [others, hs, List.filter_singleton]
  by_cases h : Apart K d d'
  · rw [if_pos h, decide_eq_true (show ¬ OwnEntry K d' (entry K d sig) from fun ho => hown.mp ho h)]
    rfl
  · rw [if_neg h, decide_eq_false (not_not.mpr (hown.mpr h))]
    rfl

/-- Both parties of a slate come to the same key sum. -/
theorem fillRound1_keys {K : Keychain F E} {s t : Slate F E} {c c' : Context E}
    {d d' : SecretKey × SecretKey} {sig sig' : Option (Signature F E)}
    (hs : s.participantData = [entry K.toCurve d sig])
    (ht : t.participantData = [entry K.toCurve d' sig']) (hc : (c.secKey, c.secNonce) = d')
    (hc' : (c'.secKey, c'.secNonce) = d) :
    ((s.fillRound1 K c).participantData.map (·.publicBlindExcess)).sum
      = ((t.fillRound1 K c').participantData.map (·.publicBlindExcess)).sum := by
  rw [fillRound1_participants, fillRound1_participants, hc, hc', others_one hs, others_one ht]
  by_cases h : Apart K.toCurve d d'
  · rw [if_pos h, if_pos h.symm]
    simp [entry, add_comm]
  · have hkey : K.publicKey d.1 = K.publicKey d'.1 := (not_not.mp h).2
    rw [if_neg h, if_neg fun h' => h h'.symm]
    simp [entry, hkey]

end Slate

/-! ## The sender's check -/

namespace Tx

omit [CommRing F] [Module F E] in
/-- A proof that matches what the sender asked for, with a signature that verifies,
is accepted. -/
theorem verifySlatePaymentProof_ok {K : Keychain F E} {s : Store E} {account : Identifier}
    {c : Context E} {slate : Slate F E} {tx : TxLogEntry E} {rest : List (TxLogEntry E)}
    {orig : StoredProofInfo} {p : PaymentInfo} {index : Nat} {excess : E} {sig : DalekSignature}
    (htx : Updater.retrieveTxs s none (some slate.id) (some account) false = tx :: rest)
    (horig : tx.paymentProof = some orig) (hp : slate.paymentProof = some p)
    (hindex : c.paymentProofDerivationIndex = some index)
    (hsender : p.senderAddress = K.dalekPublicKey (K.addressKey account index))
    (hreceiver : orig.receiverAddress = p.receiverAddress) (hexcess : slate.calcExcess = .ok excess)
    (hsig : p.receiverSignature = some sig)
    (hverify : K.dalekVerify p.receiverAddress ⟨slate.amount, excess, p.senderAddress⟩ sig = true) :
    verifySlatePaymentProof K s account c slate = .ok () := by
  rw [hsender] at hverify
  simp only [verifySlatePaymentProof, htx, horig, hp, hindex, hsender, hreceiver, hexcess, hsig,
    ne_eq, not_true_eq_false, if_false]
  exact if_pos hverify

omit [CommRing F] [Module F E] in
/-- A found record is completed. -/
theorem updateStoredTx_ok {env : Env F E} {c : Context E} {s : Slate F E} {invoiced : Bool}
    {w : WalletBackend F E} {t : TxLogEntry E} {tx : Transaction F E} {excess : E}
    (hfind : finalizedEntry w.store s.id invoiced = some t) (htx : s.tx = some tx)
    (hexcess : s.calcExcess = .ok excess) :
    ∃ w', updateStoredTx env c s invoiced w = (.ok (), w') := by
  have hfile : unwrap t.txSlateId = .ok s.id := by
    rw [(finalizedEntry_slateId hfind).2.1]
    rfl
  unfold updateStoredTx
  rw [Eff.run_bind_ok (Eff.run_read w)]
  simp only [hfind]
  rw [Eff.run_bind_ok (Eff.ofExcept_eq_ok.mpr ⟨hexcess, rfl⟩),
    Eff.run_bind_ok (Eff.ofExcept_eq_ok.mpr ⟨hfile, rfl⟩),
    Eff.run_bind_ok (Eff.ofExcept_eq_ok.mpr ⟨Slate.txOrErr_eq_ok.mpr htx, rfl⟩)]
  exact ⟨_, rfl⟩

end Tx

/-- A sender waits for the answer to a slate: its context has the key it joined the
slate with and the amount, and its first record of the slate in the account is the
send with the proof it asked for, from the account's own address. -/
structure Awaits (K : Keychain F E) (slate : Slate F E) (p : PaymentInfo) (c : Context E)
    (account : Identifier) (s : Store E) : Prop where
  opened : ∃ d, c.Drawn d ∧ slate.participantData = [entry K.toCurve d none]
  amount : c.amount = slate.amount
  address : ∃ index, c.paymentProofDerivationIndex = some index ∧
    p.senderAddress = K.dalekPublicKey (K.addressKey account index)
  record : ∃ tx rest orig,
    Updater.retrieveTxs s none (some slate.id) (some account) false = tx :: rest ∧
      tx.txType = .TxSent ∧ tx.paymentProof = some orig ∧ orig.receiverAddress = p.receiverAddress

/-! ## Senders who wait -/

namespace Owner

variable {env : Env F E} {d : SecretKey × SecretKey} {slate s : Slate F E} {c : Context E}
  {args : InitTxArgs} {w w' : WalletBackend F E}

/-- The context of a send belongs to the account it spends from. -/
theorem beginSend_account {height : Nat} {account : Identifier} (hplain : slate.kernelFeatures = 0)
    (h : beginSend (env.drawing d) slate height args account w = (.ok (s, c), w')) :
    c.parentKeyId = account := by
  unfold beginSend at h
  split at h
  · obtain ⟨_, w₁, h₁, h₂⟩ := Eff.bind_eq_ok.mp h
    obtain ⟨_, w₂, h₃, h₄⟩ := Eff.bind_eq_ok.mp h₂
    obtain ⟨⟨coins, total, amount, fee⟩, w₃, h₅, h₆⟩ := Eff.bind_eq_ok.mp h₄
    obtain ⟨feeFields, w₄, h₇, h₈⟩ := Eff.bind_eq_ok.mp h₆
    obtain ⟨c₁, w₅, h₉, hend⟩ := Eff.bind_eq_ok.mp h₈
    cases h₉
    cases hend
    rfl
  · obtain ⟨_, w₁, h₁, h₂⟩ := Eff.bind_eq_ok.mp h
    obtain ⟨⟨s₁, c₁⟩, w₂, hbuild, h₃⟩ := Eff.bind_eq_ok.mp h₂
    obtain ⟨tx, amount, fee, ins, outs, -, -, -, rfl, rfl⟩ := Selection.buildSendTx_eq_ok hbuild hplain
    cases h₃
    rfl

/-- A send that asks for a proof names the address of its account, and keeps its index. -/
theorem initSendTx_requests {a : SlatepackAddress} (hest : args.estimateOnly ≠ some true)
    (haddress : args.paymentProofRecipientAddress = some a)
    (h : initSendTx (env.drawing d) args w = (.ok s, w')) :
    ∃ c, w'.store.getPrivateContext env.keychain s.id = .ok c ∧
      c.parentKeyId = w.accountNamed args.srcAcctName ∧
      c.paymentProofDerivationIndex = some 0 ∧
      s.paymentProof = some ⟨env.keychain.dalekPublicKey
        (env.keychain.addressKey (w.accountNamed args.srcAcctName) 0), a.pubKey, none⟩ := by
  obtain ⟨slate, w₁, tip, w₂, s₁, c, w₃, hnew, -, hbegin, hs, hw'⟩ := initSendTx_eq_ok hest h
  have hb := Tx.newTxSlate_blank _ _ _ _ _ _ _ hnew
  have haccount := beginSend_account (by exact hb.plain) hbegin
  rw [haddress] at hs hw'
  subst hw' hs
  exact ⟨_, Store.getPrivateContext_savePrivateContext _ _ _ _, haccount, rfl, rfl⟩

/-- A sender that locks the outputs of its slate waits for the answer, when no older
record has the identifier. -/
theorem txLockOutputs_awaits {p : PaymentInfo} {index : Nat}
    (hget : w.store.getPrivateContext env.keychain slate.id = .ok c)
    (hopened : Opened env.keychain.toCurve d slate c) (hproof : slate.paymentProof = some p)
    (hindex : c.paymentProofDerivationIndex = some index)
    (hsender : p.senderAddress
      = env.keychain.dalekPublicKey (env.keychain.addressKey c.parentKeyId index))
    (hnew : ∀ t ∈ w.store.txLogIter, t.txSlateId ≠ some slate.id)
    (h : txLockOutputs env slate w = (.ok (), w')) :
    Awaits env.keychain slate p c c.parentKeyId w'.store := by
  obtain ⟨c₁, sl, height, excess, now, debited, proof, hget₁, hsl, hlocked⟩ := txLockOutputs_eq_ok h
  obtain rfl := Except.ok.inj (hget.symm.trans hget₁)
  have hslate : sl.paymentProof = some p ∧ sl.id = slate.id := by
    unfold slateToLock at hsl
    split at hsl
    · obtain ⟨tx, fee, features, -, -, -, rfl⟩ := Slate.repopulateTx_eq_ok hsl
      exact ⟨hproof, rfl⟩
    · cases hsl
      exact ⟨hproof, rfl⟩
  have hstored := hlocked.requested
  simp only [Selection.sentProof, hslate.1, hindex] at hstored
  have hrequested := (Except.ok.inj hstored).symm
  obtain ⟨outputs, hstore⟩ := hlocked.rest
  let t : TxLogEntry E := Selection.lockedEntry sl height c excess
    (w.store.txLogId c.parentKeyId) now debited proof
  have hlog : (c.parentKeyId, t) ∈ w'.store.txLog := by
    rw [hstore]
    exact Table.mem_put.mpr (.inl rfl)
  have hmem : t ∈ Updater.retrieveTxs w'.store none (some slate.id) (some c.parentKeyId) false := by
    refine Updater.mem_retrieveTxs.mpr ⟨List.mem_map.mpr ⟨_, hlog, rfl⟩, ?_, nofun, ?_, nofun⟩
    · intro k hk
      cases hk
      rfl
    · intro u hu
      cases hu
      exact congrArg some hslate.2
  -- every record of the slate is the new one
  have honly : ∀ t' ∈ Updater.retrieveTxs w'.store none (some slate.id) (some c.parentKeyId) false,
      t' = t := by
    intro t' ht'
    obtain ⟨hiter, -, -, hid, -⟩ := Updater.mem_retrieveTxs.mp ht'
    obtain ⟨row, hrow, rfl⟩ := List.mem_map.mp hiter
    rw [hstore] at hrow
    rcases Table.mem_put.mp hrow with heq | ⟨hold, -⟩
    · rw [heq]
    · exact (hnew _ (List.mem_map.mpr ⟨row, hold, rfl⟩) (hid _ rfl)).elim
  refine ⟨⟨d, hopened.drawn, hopened.participants⟩, hopened.amount, ⟨index, hindex, hsender⟩, ?_⟩
  cases hlist : Updater.retrieveTxs w'.store none (some slate.id) (some c.parentKeyId) false with
  | nil =>
      rw [hlist] at hmem
      cases hmem
  | cons tx rest =>
      have htx := honly tx (by rw [hlist]; exact List.mem_cons_self)
      subst htx
      exact ⟨t, rest, _, rfl, rfl, hrequested, rfl⟩

/-- A send that asks for a proof and locks its outputs waits for the answer. -/
theorem initSendTx_awaits {a : SlatepackAddress} {w₂ : WalletBackend F E}
    (hest : args.estimateOnly ≠ some true) (haddress : args.paymentProofRecipientAddress = some a)
    (h : initSendTx (env.drawing d) args w = (.ok s, w'))
    (hnew : ∀ t ∈ w'.store.txLogIter, t.txSlateId ≠ some s.id)
    (hlock : txLockOutputs env s w' = (.ok (), w₂)) :
    ∃ c p, w'.store.getPrivateContext env.keychain s.id = .ok c ∧ s.paymentProof = some p ∧
      p.receiverAddress = a.pubKey ∧
      Awaits env.keychain s p c (w.accountNamed args.srcAcctName) w₂.store := by
  obtain ⟨c, hget, haccount, hindex, hproof⟩ := initSendTx_requests hest haddress h
  obtain ⟨c', hget', hopened, -⟩ := initSendTx_opens hest h
  obtain rfl := Except.ok.inj (hget.symm.trans hget')
  rw [← haccount] at hproof ⊢
  exact ⟨c, _, hget, hproof, rfl,
    txLockOutputs_awaits hget hopened hproof hindex rfl hnew hlock⟩

end Owner

namespace Foreign

/-- The slate a sender completes once it has its context again. -/
def completed (env : Env F E) (s : Slate F E) (c : Context E) (store : Store E) :
    Except Error (Slate F E) := do
  let sl ← Selection.repopulateTx env.keychain store (s.adjustOffset env.keychain c) c true
  Tx.completeTx env.keychain env.consensus sl c

/-- Every sender who waits for the answer to the slate, and can complete it in time,
finds the payment proof right and finalizes. -/
def Accepted (K : Curve F E) (slate : Slate F E) (p : PaymentInfo) (s' : Slate F E) : Prop :=
  ∀ (env : Env F E) (c c' : Context E) (w w₁ : WalletBackend F E) (sl : Slate F E),
    env.keychain.toCurve = K → w.store.getPrivateContext env.keychain s'.id = .ok c →
    ¬ Owner.Expired w s' → lockedContext env s' c w.parentKeyId w = (.ok c', w₁) →
    Awaits env.keychain slate p c' w.parentKeyId w₁.store →
    completed env s' c' w₁.store = .ok sl →
      Tx.verifySlatePaymentProof env.keychain w₁.store w.parentKeyId c' sl = .ok () ∧
      ∃ s₃ w₃, finalizeTx env s' false w = (.ok s₃, w₃)

variable {env : Env F E} {slate s s' sl : Slate F E} {c c' : Context E} {w w₁ : WalletBackend F E}

/-- A send whose proof is right is finalized. -/
theorem finalizeTx_ok {t : TxLogEntry E} {tx : Transaction F E} {excess : E}
    (hstate : s.state = .Standard2)
    (hget : w.store.getPrivateContext env.keychain s.id = .ok c) (httl : ¬ Owner.Expired w s)
    (hlock : lockedContext env s c w.parentKeyId w = (.ok c', w₁))
    (hcompleted : completed env s c' w₁.store = .ok sl)
    (hverify : Tx.verifySlatePaymentProof env.keychain w₁.store w.parentKeyId c' sl = .ok ())
    (hfind : Tx.finalizedEntry w₁.store sl.id false = some t) (htx : sl.tx = some tx)
    (hexcess : sl.calcExcess = .ok excess) :
    ∃ s₃ w₃, finalizeTx env s false w = (.ok s₃, w₃) := by
  obtain ⟨sl₁, hrep, hcomp⟩ := except_bind_eq_ok.mp hcompleted
  obtain ⟨w₂, hupdate⟩ := Tx.updateStoredTx_ok (c := c') hfind htx hexcess
  obtain ⟨store, hclose⟩ := Tx.close_ok hupdate w.parentKeyId
    { sl with state := .Standard3, amount := 0 } rfl
  have hstandard : ∃ s₃ w₃, finalizeStandard env s c w = (.ok s₃, w₃) := by
    unfold finalizeStandard
    rw [Eff.run_bind_ok (Eff.run_read w), Eff.run_bind_ok hlock, Eff.run_bind_ok (Eff.run_read w₁),
      Eff.run_bind_ok (Eff.ofExcept_eq_ok.mpr ⟨hrep, rfl⟩),
      Eff.run_bind_ok (Eff.ofExcept_eq_ok.mpr ⟨hcomp, rfl⟩),
      Eff.run_bind_ok (Eff.ofExcept_eq_ok.mpr ⟨hverify, rfl⟩), Eff.run_bind_ok hupdate]
    have hdelete : commit (fun s => s.deletePrivateContext sl.id) w₂
        = (.ok (), { w₂ with store := w₂.store.deletePrivateContext sl.id }) := rfl
    rw [Eff.run_bind_ok hdelete]
    exact ⟨_, _, (Eff.run_bind_ok (batch_eq_ok.mpr ⟨store, hclose, rfl⟩)).trans rfl⟩
  obtain ⟨s₃, w₃, hrun⟩ := hstandard
  refine ⟨s₃, w₃, ?_⟩
  unfold finalizeTx
  rw [Eff.run_bind_ok (Eff.run_read w), Eff.run_bind_ok (Eff.ofExcept_eq_ok.mpr ⟨hget, rfl⟩),
    Eff.run_bind_ok (Owner.run_checkTtl httl)]
  have hby : finalizeByState env s c w = (.ok s₃, w₃) := by
    simp only [finalizeByState, hstate]
    exact hrun
  exact (Eff.run_bind_ok hby).trans rfl

/-- What a sender completes an answer to. -/
theorem completed_eq_ok {store : Store E} (h : completed env s c store = .ok sl) :
    sl.calcExcess = .ok ((s.fillRound1 env.keychain c).participantData.map (·.publicBlindExcess)).sum ∧
      sl.paymentProof = s.paymentProof ∧ sl.amount = c.amount ∧ sl.id = s.id ∧
      ∃ tx, sl.tx = some tx := by
  obtain ⟨sl₁, hrep, hcomp⟩ := except_bind_eq_ok.mp h
  obtain ⟨tx, fee, features, -, -, -, rfl⟩ := Slate.repopulateTx_eq_ok hrep
  exact Slate.completeTx_excess hcomp

/-! ## Both sides agree on the proof -/

variable {dest : Option Label} {p : PaymentInfo} {w' : WalletBackend F E}

/-- The excess of the transaction the recipient takes part in. -/
def finalExcess (env : Env F E) (slate : Slate F E) (w : WalletBackend F E) : E :=
  ((joined env slate w).participantData.map (·.publicBlindExcess)).sum

/-- The recipient's signature verifies under the address the slate names, and every
sender who waits for the answer accepts it. -/
structure ProofAgreed (env : Env F E) (slate : Slate F E) (w : WalletBackend F E) (p : PaymentInfo)
    (s' : Slate F E) : Prop where
  signature : ∃ sig, s'.paymentProof = some { p with receiverSignature := some sig } ∧
    env.keychain.dalekVerify p.receiverAddress
      ⟨slate.amount, finalExcess env slate w, p.senderAddress⟩ sig = true
  accepted : Accepted env.keychain.toCurve slate p s'

/-- Senders accept a signature that verifies. -/
theorem accepted_of_verifies {sig : DalekSignature} {msg : KernelFeatures}
    (hreply : Reply env slate dest w msg s')
    (hproof : s'.paymentProof = some { p with receiverSignature := some sig })
    (hverify : env.keychain.dalekVerify p.receiverAddress
      ⟨slate.amount, finalExcess env slate w, p.senderAddress⟩ sig = true) :
    Accepted env.keychain.toCurve slate p s' := by
  intro envS c c' wS wS₁ sl hcurve hget httl hlock hawaits hcompleted
  obtain ⟨hexcess, hslproof, hamount, hid, tx, htx⟩ := completed_eq_ok hcompleted
  obtain ⟨d, hdrawn, hopened⟩ := hawaits.opened
  obtain ⟨index, hindex, hsender⟩ := hawaits.address
  obtain ⟨t, rest, orig, hrecords, htype, horig, hreceiver⟩ := hawaits.record
  have hslid : sl.id = slate.id := hid.trans hreply.id
  have hsum : ((s'.fillRound1 envS.keychain c').participantData.map (·.publicBlindExcess)).sum
      = finalExcess env slate w := by
    have hparts := hreply.participants
    rw [← hcurve] at hparts
    have hkeys := Slate.fillRound1_keys (K := envS.keychain)
      (c := receiptContext env slate dest w) hopened hparts rfl hdrawn.pair
    rw [← hkeys, finalExcess, joined, Slate.fillRound1_participants, Slate.fillRound1_participants,
      hcurve]
    rfl
  rw [hsum] at hexcess
  have hcheck : Tx.verifySlatePaymentProof envS.keychain wS₁.store wS.parentKeyId c' sl
      = .ok () := by
    rw [← hslid] at hrecords
    refine Tx.verifySlatePaymentProof_ok hrecords horig (hslproof.trans hproof) hindex hsender
      hreceiver hexcess rfl ?_
    rw [hamount, hawaits.amount, hcurve]
    exact hverify
  refine ⟨hcheck, ?_⟩
  have hfound : (Tx.finalizedEntry wS₁.store sl.id false).isSome = true := by
    have hmem : t ∈ Updater.retrieveTxs wS₁.store none (some slate.id) (some wS.parentKeyId) false := by
      rw [hrecords]
      exact List.mem_cons_self
    obtain ⟨hlog, -, -, htid, -⟩ := Updater.mem_retrieveTxs.mp hmem
    rw [Tx.finalizedEntry, List.find?_isSome]
    refine ⟨t, Updater.mem_retrieveTxs.mpr ⟨hlog, (fun _ h => by cases h), (fun _ h => by cases h), ?_,
      fun h => by cases h⟩, by simp [htype]⟩
    intro u hu
    rw [htid slate.id rfl, ← hslid, hu]
  obtain ⟨t', hfind⟩ := Option.isSome_iff_exists.mp hfound
  exact finalizeTx_ok hreply.state hget httl hlock hcompleted hcheck hfind htx hexcess

/-- The payment proof of a received slate is agreed on exactly when the address the
slate names is the one of the account that receives. -/
theorem payment_proof_agreed_iff (hideal : env.keychain.IdealSignatures)
    (hp : slate.paymentProof = some p) (h : receiveTx env slate dest w = (.ok s', w')) :
    ProofAgreed env slate w p s' ↔ p.receiverAddress
      = env.keychain.dalekPublicKey (env.keychain.addressKey (w.accountNamed dest) 0) := by
  obtain ⟨msg, hreply⟩ := receiveTx_reply h
  have hproof := hreply.paymentProof
  rw [hp, Option.map_some] at hproof
  constructor
  · intro hagreed
    obtain ⟨sig, hsig, hverify⟩ := hagreed.signature
    rw [hproof] at hsig
    cases hsig
    exact ((hideal.verify_sign _ _ _ _).mp hverify).1
  · intro haddress
    have hverify := (hideal.verify_sign p.receiverAddress
      ⟨slate.amount, finalExcess env slate w, p.senderAddress⟩
      (env.keychain.addressKey (w.accountNamed dest) 0) _).mpr ⟨haddress, rfl⟩
    exact ⟨⟨_, hproof, hverify⟩, accepted_of_verifies hreply hproof hverify⟩

end Foreign

/-! ## A payment to the other account -/

namespace SampleProof

open SampleSend (noSlate)

/-- The one signature of a key on a message. -/
def signatureOf (key : DalekPublicKey) (m : PaymentProofMessage (ℤ × ℤ)) : DalekSignature :=
  Encodable.encode (key, m.amount, m.kernelCommitment, m.senderAddress)

/-- The sample seed with an address key for each account. -/
def keychain : Keychain ℤ (ℤ × ℤ) :=
  { sampleKeychain with
    addressKey := fun id i => BitVec.ofNat 256 (pathNumber id + i)
    dalekSign := fun x m => signatureOf x.toNat m
    dalekVerify := fun key m sig => sig = signatureOf key m }

theorem signatureOf_inj {key key' : DalekPublicKey} {m m' : PaymentProofMessage (ℤ × ℤ)} :
    signatureOf key m = signatureOf key' m' ↔ key = key' ∧ m = m' := by
  rw [signatureOf, signatureOf, Encodable.encode_inj]
  cases m
  cases m'
  simp

theorem keychain_ideal : keychain.IdealSignatures where
  verify_sign key m sk m' := by
    have hverify : keychain.dalekVerify key m (keychain.dalekSign sk m') = true ↔
        signatureOf (keychain.dalekPublicKey sk) m' = signatureOf key m := decide_eq_true_iff
    rw [hverify, signatureOf_inj, eq_comm, @eq_comm _ m']

def env : Env ℤ (ℤ × ℤ) := { SampleSend.env with keychain := keychain }

/-- The address of the recipient's default account. -/
def address : DalekPublicKey := keychain.dalekPublicKey (keychain.addressKey defaultPath 0)

def initiated : Except Error (Slate ℤ (ℤ × ℤ)) × WalletBackend ℤ (ℤ × ℤ) :=
  Owner.initSendTx (env.drawing (1, 2))
    { sampleSend 5 with paymentProofRecipientAddress := some ⟨env.addressHrp, address⟩ }
    (sampleWallet [sampleCoin 30000000 0])

def offer : Slate ℤ (ℤ × ℤ) := returned initiated noSlate

def locked : WalletBackend ℤ (ℤ × ℤ) := (Owner.txLockOutputs env offer initiated.2).2

/-- The recipient, with a second account. -/
def recipient : WalletBackend ℤ (ℤ × ℤ) := (Keys.newAcctPath "savings".toList .new).2

def received (dest : Option Label) : Except Error (Slate ℤ (ℤ × ℤ)) × WalletBackend ℤ (ℤ × ℤ) :=
  Foreign.receiveTx (env.drawing (3, 4)) offer dest recipient

def answer (dest : Option Label) : Slate ℤ (ℤ × ℤ) := returned (received dest) noSlate

/-- The proof the sender asks for. -/
def requested : PaymentInfo :=
  ⟨keychain.dalekPublicKey (keychain.addressKey defaultPath 0), address, none⟩

theorem receives {dest : Option Label} (h : (received dest).1.isOk = true) :
    Foreign.receiveTx (env.drawing (3, 4)) offer dest recipient
      = (.ok (answer dest), (received dest).2) :=
  eq_returned noSlate h

theorem payment_proof_agreed_iff_default :
    Foreign.ProofAgreed (env.drawing (3, 4)) offer recipient requested (answer none) ↔
      requested.receiverAddress
        = keychain.dalekPublicKey (keychain.addressKey (recipient.accountNamed none) 0) :=
  Foreign.payment_proof_agreed_iff keychain_ideal (by decide +kernel)
    (@receives none (by decide +kernel))

/-- A payment into the second account is signed with that account's address key: the
signature does not verify under the address on the slate, and the sender turns the
answer down. -/
theorem other_account_signs_wrongly :
    offer.state = .Standard1 ∧ keychain.IdealSignatures ∧
      offer.paymentProof = some requested ∧
      Foreign.receiveTx (env.drawing (3, 4)) offer (some "savings".toList) recipient
        = (.ok (answer (some "savings".toList)), (received (some "savings".toList)).2) ∧
      ¬ Foreign.ProofAgreed (env.drawing (3, 4)) offer recipient requested
        (answer (some "savings".toList)) ∧
      (Foreign.finalizeTx env (answer (some "savings".toList)) false locked).1
        = .error (.PaymentProof "Invalid proof signature") ∧
      (Foreign.finalizeTx env (answer none) false locked).1.isOk = true := by
  have hproof : offer.paymentProof = some requested := by decide +kernel
  have hreceive := @receives (some "savings".toList) (by decide +kernel)
  have hunverified : ∀ sig,
      (answer (some "savings".toList)).paymentProof
          = some { requested with receiverSignature := some sig } →
      keychain.dalekVerify address ⟨offer.amount, Foreign.finalExcess (env.drawing (3, 4)) offer
        recipient, requested.senderAddress⟩ sig = false := by
    intro sig hsig
    have hstored : ((answer (some "savings".toList)).paymentProof.bind
        (·.receiverSignature)).map (keychain.dalekVerify address ⟨offer.amount,
          Foreign.finalExcess (env.drawing (3, 4)) offer recipient, requested.senderAddress⟩)
        = some false := by decide +kernel
    rw [hsig] at hstored
    exact Option.some.inj hstored
  refine ⟨by decide +kernel, keychain_ideal, hproof, hreceive, ?_, by decide +kernel,
    by decide +kernel⟩
  intro hagreed
  obtain ⟨sig, hsig, hverify⟩ := hagreed.signature
  have hfalse := hunverified sig hsig
  rw [show keychain.dalekVerify address _ sig = true from hverify] at hfalse
  cases hfalse

end SampleProof

end GrinWallet
