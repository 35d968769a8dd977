import GrinWallet.Model.SampleSwap
import GrinWallet.Mwixnet.Onion
import Mathlib.Algebra.Module.BigOperators

/-! # What a mix net makes of a swap request

The signature of a request holds for the swapped output's commitment and the onion's
bytes, and these bytes are those of no other onion. The servers the request was made
for peel the onion unless the commitment vanishes on the way, each taking its fee.
They arrive at the wallet's new output exactly when the output pays all the fees.
-/

namespace GrinWallet

open Effect Wire Keystream WalletBackend Json

namespace Mwixnet

/-! ## The bytes of an onion -/

section Bytes

variable {F E : Type} (C : Codecs F E)

theorem readFixedBytes_exact (n : Nat) :
    Exact (C.readFixedBytes n) (fun bs => bs) (fun bs => bs.length = n ∧ n ≤ C.readLimit) := by
  unfold Codecs.readFixedBytes
  by_cases hn : n > C.readLimit
  · rw [if_pos hn]
    intro s bs s'
    refine iff_of_false (fun h => by cases h) fun h => ?_
    have hle := h.2.2
    omega
  · rw [if_neg hn]
    refine (Exact.takeBytes SerError.IOErr n).congr (fun bs => ?_) fun _ _ => rfl
    exact ⟨fun h => ⟨h, by omega⟩, And.left⟩

theorem vecToArray_of_length {n : Nat} {bs : Bytes} (h : bs.length = n) :
    vecToArray n bs = .ok ⟨bs, h⟩ :=
  ComSignature.vecToArray_bytes ⟨bs, h⟩

theorem FixedBytes.eq_mk {n : Nat} {a : FixedBytes n} {bs : Bytes} (h : a.bytes = bs)
    (hlen : bs.length = n) : a = ⟨bs, hlen⟩ := by
  subst h
  rfl

/-- A string of a fixed length, put in an array. -/
theorem fixedBytes_exact {n : Nat} (hn : n ≤ C.readLimit) :
    Exact (C.readFixedBytes n >>= fun bytes => Eff.ofExcept (vecToArray n bytes))
      FixedBytes.bytes (fun _ => True) := by
  have hbind := @Exact.bind _ _ _ _ _ _ (fun bytes => Eff.ofExcept (vecToArray n bytes))
    (fun _ _ => []) (fun bs a => a.bytes = bs) FixedBytes.bytes (readFixedBytes_exact C n)
    (fun bs hbs => ?_) fun bs a _ ha => ha
  · refine hbind.congr (fun a => ?_) fun a _ => List.append_nil _
    exact ⟨fun _ => trivial, fun _ => ⟨⟨a.length_bytes, hn⟩, rfl⟩⟩
  · rw [vecToArray_of_length hbs.1]
    refine (Exact.pure _).congr (fun a => ?_) fun _ _ => rfl
    exact ⟨fun h => by rw [h], fun h => FixedBytes.eq_mk h hbs.1⟩

namespace Onion

/-- An onion whose payloads one call of the reader returns each. -/
def Fits (onion : Onion) : Prop :=
  onion.encPayloads.length < 2 ^ 64 ∧
    ∀ p ∈ onion.encPayloads, p.length < 2 ^ 64 ∧ p.length ≤ C.readLimit

theorem readPayload_exact :
    Exact (readPayload C) writePayload (fun p => p.length < 2 ^ 64 ∧ p.length ≤ C.readLimit) := by
  have hbind := (Exact.word SerError.IOErr 8).bind List.length
    (fun n _ => readFixedBytes_exact C n) fun n bs _ h => h.1
  refine hbind.congr (fun p => ?_) fun _ _ => rfl
  exact ⟨fun h => ⟨Ser.u64_valid.mp h.1, h.2.2⟩, fun h => ⟨Ser.u64_valid.mpr h.1, rfl, h.2⟩⟩

/-- The reader accepts exactly the bytes written for an onion it can hold. -/
theorem read_exact : Exact (read C) serialize (Fits C) := by
  have hlimit := C.readLimit_ge
  have hpayloads : ∀ (pk : XPublicKey) (c : Commitment) (n : Nat),
      Exact (times n (readPayload C) >>= fun ps => pure (Onion.mk pk c ps))
        (fun o => o.encPayloads.flatMap writePayload)
        (fun o => o.encPayloads.length = n ∧ o.ephemeralPubkey = pk ∧ o.commit = c ∧
          ∀ p ∈ o.encPayloads, p.length < 2 ^ 64 ∧ p.length ≤ C.readLimit) := by
    intro pk c n
    refine (((readPayload_exact C).times n).bind encPayloads (fun ps _ => Exact.pure _)
      fun ps o _ h => by rw [h]).congr (fun o => ?_) fun o _ => List.append_nil _
    constructor
    · intro ⟨⟨hlen, hall⟩, ho⟩
      rw [ho]
      exact ⟨hlen, rfl, rfl, hall⟩
    · intro ⟨hlen, hpk, hc, hall⟩
      refine ⟨⟨hlen, hall⟩, ?_⟩
      rw [← hpk, ← hc]
  have hcount : ∀ (pk : XPublicKey) (c : Commitment),
      Exact (Ser.u64.read >>= fun n => times n (readPayload C) >>= fun ps => pure (Onion.mk pk c ps))
        (fun o => Ser.u64.write o.encPayloads.length ++ o.encPayloads.flatMap writePayload)
        (fun o => o.ephemeralPubkey = pk ∧ o.commit = c ∧ Fits C o) := by
    intro pk c
    refine ((Exact.word SerError.IOErr 8).bind (fun o => o.encPayloads.length)
      (fun n _ => hpayloads pk c n) fun n o _ h => h.1).congr (fun o => ?_) fun o _ => rfl
    constructor
    · intro ⟨hn, _, hpk, hc, hall⟩
      exact ⟨hpk, hc, Ser.u64_valid.mp hn, hall⟩
    · intro ⟨hpk, hc, hn, hall⟩
      exact ⟨Ser.u64_valid.mpr hn, rfl, hpk, hc, hall⟩
  have hcommit : ∀ pk : XPublicKey,
      Exact (ComSignature.readCommitment C >>= fun c => Ser.u64.read >>= fun n =>
          times n (readPayload C) >>= fun ps => pure (Onion.mk pk c ps))
        (fun o => o.commit.bytes ++ (Ser.u64.write o.encPayloads.length
          ++ o.encPayloads.flatMap writePayload))
        (fun o => o.ephemeralPubkey = pk ∧ Fits C o) := by
    intro pk
    refine ((fixedBytes_exact C (n := 33) (by omega)).bind Onion.commit (fun c _ => hcount pk c)
      fun c o _ h => h.2.1).congr (fun o => ?_) fun o _ => rfl
    exact ⟨fun h => ⟨h.2.1, h.2.2.2⟩, fun h => ⟨trivial, h.1, rfl, h.2⟩⟩
  have hall := (fixedBytes_exact C (n := 32) (by omega)).bind Onion.ephemeralPubkey
    (fun pk _ => hcommit pk) fun pk o _ h => h.1
  rw [bind_assoc] at hall
  refine hall.congr (fun o => ?_) fun o _ => rfl
  exact ⟨fun h => h.2.2, fun h => ⟨trivial, rfl, h⟩⟩

end Onion

end Bytes

variable {F E : Type} [Field F] [AddCommGroup E] [Module F E]

/-! ## JSON -/

section JsonObjects

variable (X : Hex)

theorem Hex.readValue_value (bs : Bytes) : X.readValue (X.value bs) = .ok bs := by
  unfold readValue value Value.readString
  simp only [Option.bind_some, X.fromHex_toHex]

theorem commitmentFromVec_bytes (c : Commitment) : commitmentFromVec c.bytes = c := by
  refine FixedBytes.eq_mk (a := commitmentFromVec c.bytes) ?_ c.length_bytes
  exact List.take_left' c.length_bytes

namespace Onion

theorem readElements_map (l : List Bytes) : readElements X (.array (l.map X.value)) = .ok l := by
  show (l.map X.value).mapM X.readValue = .ok l
  induction l with
  | nil => rfl
  | cons bs l ih =>
      rw [List.map_cons, List.mapM_cons, Hex.readValue_value, ih]
      rfl

theorem ofValue_toValue (onion : Onion) : ofValue X (onion.toValue X) = .ok onion := by
  have hpubkey : visitMember X ⟨none, none, none⟩ ("pubkey", X.value onion.ephemeralPubkey.bytes)
      = .ok ⟨some onion.ephemeralPubkey, none, none⟩ := by
    rw [visitMember, if_pos rfl, Hex.readValue_value]
    show (((vecToArray 32 onion.ephemeralPubkey.bytes).mapError _) >>= _) = _
    rw [ComSignature.vecToArray_bytes]
    rfl
  have hcommit : visitMember X ⟨some onion.ephemeralPubkey, none, none⟩
      ("commit", X.value onion.commit.bytes)
      = .ok ⟨some onion.ephemeralPubkey, some onion.commit, none⟩ := by
    rw [visitMember, if_neg (show ¬ "commit" = "pubkey" by decide), if_pos rfl,
      Hex.readValue_value]
    show Except.ok _ = _
    rw [commitmentFromVec_bytes]
  have hdata : visitMember X ⟨some onion.ephemeralPubkey, some onion.commit, none⟩
      ("data", .array (onion.encPayloads.map X.value))
      = .ok ⟨some onion.ephemeralPubkey, some onion.commit, some onion.encPayloads⟩ := by
    rw [visitMember, if_neg (show ¬ "data" = "pubkey" by decide),
      if_neg (show ¬ "data" = "commit" by decide), if_pos rfl, readElements_map]
    rfl
  show (List.foldlM (visitMember X) _ _ >>= ofFields) = _
  rw [List.foldlM_cons, hpubkey]
  show (List.foldlM (visitMember X) _ _ >>= ofFields) = _
  rw [List.foldlM_cons, hcommit]
  show (List.foldlM (visitMember X) _ _ >>= ofFields) = _
  rw [List.foldlM_cons, hdata]
  rfl

/-- A step sets the field its key names and keeps the others. -/
theorem visitMember_eq_ok {fields fields' : Fields} {member : String × Value}
    (h : visitMember X fields member = .ok fields') :
    (fields'.pubkey.isSome ↔ fields.pubkey.isSome ∨ member.1 = "pubkey") ∧
      (fields'.commit.isSome ↔ fields.commit.isSome ∨ member.1 = "commit") ∧
      (fields'.data.isSome ↔ fields.data.isSome ∨ member.1 = "data") := by
  unfold visitMember at h
  by_cases hpubkey : member.1 = "pubkey"
  · rw [if_pos hpubkey] at h
    obtain ⟨bytes, _, h⟩ := except_bind_eq_ok.mp h
    obtain ⟨pubkey, _, hend⟩ := except_bind_eq_ok.mp h
    cases hend
    simp [hpubkey]
  by_cases hcommit : member.1 = "commit"
  · rw [if_neg hpubkey, if_pos hcommit] at h
    obtain ⟨bytes, _, hend⟩ := except_bind_eq_ok.mp h
    cases hend
    simp [hcommit]
  by_cases hdata : member.1 = "data"
  · rw [if_neg hpubkey, if_neg hcommit, if_pos hdata] at h
    obtain ⟨data, _, hend⟩ := except_bind_eq_ok.mp h
    cases hend
    simp [hdata]
  · rw [if_neg hpubkey, if_neg hcommit, if_neg hdata] at h
    cases h

theorem foldlM_visitMember {members : List (String × Value)} {fields fields' : Fields}
    (h : members.foldlM (visitMember X) fields = .ok fields') :
    (fields'.pubkey.isSome ↔ fields.pubkey.isSome ∨ "pubkey" ∈ members.map Prod.fst) ∧
      (fields'.commit.isSome ↔ fields.commit.isSome ∨ "commit" ∈ members.map Prod.fst) ∧
      (fields'.data.isSome ↔ fields.data.isSome ∨ "data" ∈ members.map Prod.fst) := by
  induction members generalizing fields with
  | nil =>
      cases h
      simp
  | cons member members ih =>
      rw [List.foldlM_cons] at h
      obtain ⟨next, hnext, h⟩ := except_bind_eq_ok.mp h
      obtain ⟨hpubkey, hcommit, hdata⟩ := ih h
      obtain ⟨hpubkey', hcommit', hdata'⟩ := visitMember_eq_ok X hnext
      rw [hpubkey, hcommit, hdata, hpubkey', hcommit', hdata', List.map_cons, List.mem_cons,
        List.mem_cons, List.mem_cons, @eq_comm _ "pubkey" member.1, @eq_comm _ "commit" member.1,
        @eq_comm _ "data" member.1, or_assoc, or_assoc, or_assoc]
      exact ⟨Iff.rfl, Iff.rfl, Iff.rfl⟩

/-- Whatever goes wrong is reported. -/
def Reports {α : Type} (r : Except JsonError α) : Prop := ∀ reason, r ≠ .error (.Panic reason)

theorem Reports.ok {α : Type} (a : α) : Reports (.ok a) := fun _ h => by cases h

theorem Reports.invalid {α : Type} (message : String) :
    Reports (.error (.Invalid message) : Except JsonError α) := fun _ h => by cases h

theorem Reports.bind {α β : Type} {x : Except JsonError α} {f : α → Except JsonError β}
    (hx : Reports x) (hf : ∀ a, Reports (f a)) : Reports (x >>= f) := by
  cases x with
  | ok a => exact hf a
  | error e =>
      intro reason h
      cases h
      exact hx reason rfl

theorem reports_readValue (v : Value) : Reports (X.readValue v) := by
  unfold Hex.readValue
  split
  · exact .ok _
  · exact .invalid _

theorem reports_readElements (v : Value) : Reports (readElements X v) := by
  unfold readElements
  split
  · next vs =>
    induction vs with
    | nil => exact .ok _
    | cons v vs ih =>
        rw [List.mapM_cons]
        exact (reports_readValue X v).bind fun bs => ih.bind fun l => .ok _
  · exact .invalid _

theorem reports_visitMember (fields : Fields) (member : String × Value) :
    Reports (visitMember X fields member) := by
  unfold visitMember
  split
  · refine (reports_readValue X _).bind fun bytes => Reports.bind ?_ fun pubkey => .ok _
    cases vecToArray 32 bytes with
    | ok pubkey => exact .ok _
    | error e => exact .invalid _
  split
  · exact (reports_readValue X _).bind fun bytes => .ok _
  split
  · exact (reports_readElements X _).bind fun data => .ok _
  · exact .invalid _

theorem reports_visitMembers (members : List (String × Value)) (fields : Fields) :
    Reports (members.foldlM (visitMember X) fields) := by
  induction members generalizing fields with
  | nil => exact .ok _
  | cons member members ih =>
      rw [List.foldlM_cons]
      exact (reports_visitMember X fields member).bind ih

theorem ofFields_panics_iff {fields : Fields} :
    (∃ reason, ofFields fields = .error (.Panic reason)) ↔
      ¬ (fields.pubkey.isSome ∧ fields.commit.isSome ∧ fields.data.isSome) := by
  obtain ⟨pubkey, commit, data⟩ := fields
  cases pubkey <;> cases commit <;> cases data <;> simp [ofFields]

/-- Reading an onion panics exactly when it is an object without one of the three keys whose
members can all be read. -/
theorem ofValue_panics_iff (v : Value) :
    (∃ reason, ofValue X v = .error (.Panic reason)) ↔
      ∃ members fields, v = .object members ∧
        members.foldlM (visitMember X) ⟨none, none, none⟩ = .ok fields ∧
        ∃ key ∈ ["pubkey", "commit", "data"], key ∉ members.map Prod.fst := by
  cases v with
  | object members =>
      cases hfields : members.foldlM (visitMember X) ⟨none, none, none⟩ with
      | error e =>
          refine iff_of_false ?_ ?_
          · intro ⟨reason, h⟩
            have hbind : ofValue X (.object members) = .error e := by
              show (members.foldlM (visitMember X) ⟨none, none, none⟩ >>= ofFields) = _
              rw [hfields]
              rfl
            rw [hbind] at h
            cases h
            exact reports_visitMembers X members _ reason hfields
          · intro ⟨members', fields, heq, hok, _⟩
            cases heq
            rw [hfields] at hok
            cases hok
      | ok fields =>
          have hbind : ofValue X (.object members) = ofFields fields := by
            show (members.foldlM (visitMember X) ⟨none, none, none⟩ >>= ofFields) = _
            rw [hfields]
            rfl
          obtain ⟨hpubkey, hcommit, hdata⟩ := foldlM_visitMember X hfields
          rw [hbind, ofFields_panics_iff, hpubkey, hcommit, hdata]
          constructor
          · intro hmissing
            refine ⟨members, fields, rfl, hfields, ?_⟩
            by_contra hall
            have hkey : ∀ key ∈ ["pubkey", "commit", "data"], key ∈ members.map Prod.fst :=
              fun key hkey => by_contra fun h => hall ⟨key, hkey, h⟩
            exact hmissing ⟨.inr (hkey _ (by simp)), .inr (hkey _ (by simp)), .inr (hkey _ (by simp))⟩
          · intro ⟨members', fields', heq, _, key, hkey, hmissing⟩ ⟨h₁, h₂, h₃⟩
            cases heq
            simp only [Option.isSome_none, Bool.false_eq_true, false_or] at h₁ h₂ h₃
            simp only [List.mem_cons, List.not_mem_nil, or_false] at hkey
            rcases hkey with rfl | rfl | rfl
            · exact hmissing h₁
            · exact hmissing h₂
            · exact hmissing h₃
  | _ =>
      refine iff_of_false ?_ ?_
      · intro ⟨reason, h⟩
        cases h
      · intro ⟨members, fields, heq, _⟩
        cases heq

end Onion

end JsonObjects

/-- What a request is written as is what is read back: the reader accepts the bytes written for an
onion and no others, so that the signed bytes are those of one onion; a request in JSON is read
back; and of the objects read as an onion only one without a field panics. -/
theorem swap_request_formats (X : Hex) (N : OnionEnv F E) :
    (∀ s onion s', Onion.read N.codecs s = (.ok onion, s') ↔
      s = onion.serialize ++ s' ∧ onion.Fits N.codecs) ∧
    (∀ onion onion' : Onion, onion.Fits N.codecs → onion'.Fits N.codecs →
      onion.serialize = onion'.serialize → onion = onion') ∧
    (∀ req : SwapReq F, SwapReq.ofValue X N (req.toValue X N) = .ok req) ∧
    ∀ v, (∃ reason, Onion.ofValue X v = .error (.Panic reason)) ↔
      ∃ members fields, v = .object members ∧
        members.foldlM (Onion.visitMember X) ⟨none, none, none⟩ = .ok fields ∧
        ∃ key ∈ ["pubkey", "commit", "data"], key ∉ members.map Prod.fst := by
  have hexact := Onion.read_exact N.codecs
  refine ⟨hexact, fun _ _ => hexact.injective, fun req => ?_, Onion.ofValue_panics_iff X⟩
  have hcomsig : SwapReq.readComsig X N (X.value (req.comsig.write N.toSecp256k1))
      = .ok req.comsig := by
    unfold SwapReq.readComsig
    rw [Hex.readValue_value]
    show ((ComSignature.read N.toSecp256k1 N.codecs) _).1.mapError _ = _
    rw [(ComSignature.read_decodes N.codecs req.comsig).eq_ok]
    rfl
  refine except_bind_eq_ok.mpr ⟨_, rfl, except_bind_eq_ok.mpr ⟨_, hcomsig, ?_⟩⟩
  exact except_bind_eq_ok.mpr ⟨_, rfl, except_bind_eq_ok.mpr
    ⟨_, Onion.ofValue_toValue X req.onion, rfl⟩⟩

/-! ## The hops -/

section Hops

variable {N : OnionEnv F E} [DecidableEq F] {fee : FeeFields} {proof : RangeProof}
  {excess : Nat → Fˣ}

omit E [AddCommGroup E] [Module F E] in
theorem remainderKey_eq_ok {b : F} {k : Fˣ} (h : remainderKey b = .ok k) : (k : F) = b := by
  unfold remainderKey at h
  by_cases hb : b = 0
  · rw [dif_pos hb] at h
    cases h
  · rw [dif_neg hb] at h
    cases h
    rfl

/-- One hop for each server, with its fee. Their excesses add up to the sum, and the last has
the range proof. -/
theorem swapHops_parts {keys : List SecretKey} {i : Nat} {b : F} {hops : List (Hop F)}
    (h : swapHops N fee proof excess i b keys = .ok hops) :
    hops.map Hop.serverPubkey = keys.map N.xPublicKey ∧
      (∀ hop ∈ hops, hop.fee = fee ∧ ∀ p ∈ hop.rangeproof, p = proof) ∧
      (keys ≠ [] →
        hops.map Hop.rangeproof = List.replicate (keys.length - 1) none ++ [some proof] ∧
          (hops.map fun hop => (hop.excess : F)).sum = b) := by
  induction keys generalizing i b hops with
  | nil =>
      cases h
      exact ⟨rfl, fun hop hmem => (List.not_mem_nil hmem).elim, fun hne => (hne rfl).elim⟩
  | cons key keys ih =>
      cases keys with
      | nil =>
          obtain ⟨last, hlast, hend⟩ := except_bind_eq_ok.mp h
          cases hend
          refine ⟨rfl, fun hop hmem => ?_, fun _ => ⟨rfl, ?_⟩⟩
          · obtain rfl := List.mem_singleton.mp hmem
            exact ⟨rfl, fun p hp => (Option.some.inj hp).symm⟩
          · simpa using remainderKey_eq_ok hlast
      | cons next keys =>
          obtain ⟨rest, hrest, hend⟩ := except_bind_eq_ok.mp h
          cases hend
          obtain ⟨hkeys, hall, hsum⟩ := ih hrest
          obtain ⟨hproofs, hsum⟩ := hsum (List.cons_ne_nil _ _)
          refine ⟨?_, fun hop hmem => ?_, fun _ => ⟨?_, ?_⟩⟩
          · rw [List.map_cons, hkeys]
            rfl
          · rcases List.mem_cons.mp hmem with rfl | hmem
            · exact ⟨rfl, fun p hp => by cases hp⟩
            · exact hall hop hmem
          · rw [List.map_cons, hproofs]
            rfl
          · rw [List.map_cons, List.sum_cons, hsum]
            exact add_sub_cancel _ _

omit [DecidableEq F] in
theorem point_ne_zero_iff {v b : F} : v • N.H + b • N.G ≠ 0 ↔ v ≠ 0 ∨ b ≠ 0 := by
  constructor
  · intro h
    by_contra hzero
    rw [not_or, not_not, not_not] at hzero
    rw [hzero.1, hzero.2, zero_smul, zero_smul, add_zero] at h
    exact h rfl
  · exact Pedersen.commit_ne_zero N.independent

omit [DecidableEq F] in
theorem Hop.after_point (hop : Hop F) (v b : F) :
    hop.after N (v • N.H + b • N.G)
      = (v - hop.fee.raw) • N.H + (b + hop.excess) • N.G := by
  rw [Hop.after, sub_smul, add_smul]
  abel

/-- The commitment never vanishes if it stays blinded: it has a blinding factor of its own behind
each hop but the last, or a value before and behind the fee. -/
theorem keepsAPoint_iff {keys : List SecretKey} {i : Nat} {v b s : F} {hops : List (Hop F)}
    (h : swapHops N fee proof excess i s keys = .ok hops) (hend : b + s ≠ 0) :
    KeepsAPoint N (v • N.H + b • N.G) hops ↔
      ∀ k, k + 1 < keys.length →
        b + ∑ j ∈ Finset.range (k + 1), (excess (i + j) : F) ≠ 0 ∨
          (v - k * fee.raw ≠ 0 ∧ v - (k + 1) * fee.raw ≠ 0) := by
  induction keys generalizing i v b s hops with
  | nil =>
      cases h
      exact iff_of_true trivial fun k hk => (Nat.not_lt_zero _ hk).elim
  | cons key keys ih =>
      cases keys with
      | nil =>
          obtain ⟨last, hlast, hhops⟩ := except_bind_eq_ok.mp h
          cases hhops
          have hlast := remainderKey_eq_ok hlast
          refine iff_of_true ⟨⟨?_, ?_⟩, trivial⟩ fun k hk => ?_
          · rw [add_assoc, ← add_smul, point_ne_zero_iff, hlast]
            exact .inr hend
          · rw [Hop.after_point, point_ne_zero_iff, hlast]
            exact .inr hend
          · rw [List.length_singleton] at hk
            omega
      | cons next keys =>
          obtain ⟨rest, hrest, hhops⟩ := except_bind_eq_ok.mp h
          cases hhops
          have hend : b + excess i + (s - excess i) ≠ 0 := by
            rwa [add_assoc, add_sub_cancel]
          unfold KeepsAPoint
          rw [Hop.after_point, add_assoc, ← add_smul, point_ne_zero_iff, point_ne_zero_iff,
            ih hrest hend]
          have hsum : ∀ k, b + ∑ j ∈ Finset.range (k + 1 + 1), (excess (i + j) : F)
              = b + excess i + ∑ j ∈ Finset.range (k + 1), (excess (i + 1 + j) : F) := by
            intro k
            rw [Finset.sum_range_succ', add_comm (Finset.sum _ _), ← add_assoc]
            congr 1
            exact Finset.sum_congr rfl fun j _ => by rw [Nat.add_assoc i 1 j, Nat.add_comm 1 j]
          have hvalue : ∀ k : Nat, v - ((k + 1 : Nat) : F) * fee.raw = v - fee.raw - k * fee.raw := by
            intro k
            push_cast
            ring
          have hvalue' : ∀ k : Nat,
              v - (((k + 1 : Nat) : F) + 1) * fee.raw = v - fee.raw - (k + 1) * fee.raw := by
            intro k
            push_cast
            ring
          have hlen : (key :: next :: keys).length = (next :: keys).length + 1 := rfl
          rw [hlen]
          constructor
          · intro ⟨⟨hbefore, hbehind⟩, hrest⟩ k hk
            cases k with
            | zero =>
                rw [Finset.sum_range_one, Nat.cast_zero, zero_mul, sub_zero, zero_add, one_mul]
                by_cases hb : b + excess i = 0
                · exact .inr ⟨hbefore.resolve_right fun h => h hb,
                    hbehind.resolve_right fun h => h hb⟩
                · exact .inl hb
            | succ k =>
                rw [hsum, hvalue, hvalue']
                exact hrest k (by omega)
          · intro hall
            refine ⟨?_, fun k hk => ?_⟩
            · have hfirst := hall 0 (by rw [List.length_cons]; omega)
              rw [Finset.sum_range_one, Nat.cast_zero, zero_mul, sub_zero, zero_add, one_mul]
                at hfirst
              rcases hfirst with hb | ⟨hbefore, hbehind⟩
              · exact ⟨.inr hb, .inr hb⟩
              · exact ⟨.inl hbefore, .inl hbehind⟩
            · have hnext := hall (k + 1) (by omega)
              rwa [hsum, hvalue, hvalue'] at hnext

end Hops

/-! ## The request -/

namespace MixnetEnv

variable (M : MixnetEnv F E)

/-- The wallet's commitment, as the mix net writes it. -/
theorem commit_eq (value : Nat) (id : Identifier) :
    M.wallet.keychain.commit value id
      = (value : F) • M.tools.H + (M.deriveSecret value id : F) • M.tools.G := by
  rw [Keychain.commit, M.same_G, M.same_H, M.deriveSecret_eq, Nat.cast_smul_eq_nsmul]

/-- What each server takes: the low half of the fee of a one-in one-out transaction. -/
def hopFee : Nat := u32 (txFee M.wallet.consensus 1 1 1)

/-- What the servers ask of the constants of the network: that what they take is something in the
group, and that the wallet's range proofs can be written. -/
structure Fits : Prop where
  fee_ne_zero : (M.hopFee : F) ≠ 0
  proofs : ∀ value id,
    M.tools.codecs.rangeProof.Valid (M.wallet.keychain.rangeProof value id)

/-- The servers take the fee itself, the fees of all of them fit a word, and the order of the group
does not divide its size. -/
structure PaysInFull (servers : Nat) : Prop where
  fee_lt : txFee M.wallet.consensus 1 1 1 < 2 ^ 32
  fees_lt : txFee M.wallet.consensus 1 1 1 * servers < 2 ^ 64
  word_ne_zero : ((2 ^ 64 : Nat) : F) ≠ 0

variable {M} in
/-- The new output and what the servers take make up the old one exactly when it covers the fees. -/
theorem PaysInFull.adds_up_iff {servers value : Nat} (h : M.PaysInFull servers)
    (hvalue : value < 2 ^ 64) :
    (value : F) = (wrappingSub value (u64 (txFee M.wallet.consensus 1 1 1 * servers)) : Nat)
        + servers * M.hopFee ↔
      txFee M.wallet.consensus 1 1 1 * servers ≤ value := by
  obtain ⟨fees, hfees⟩ : ∃ n, n = txFee M.wallet.consensus 1 1 1 * servers := ⟨_, rfl⟩
  have hcast : ((servers : F) * (M.hopFee : F)) = (fees : F) := by
    rw [hfees, hopFee, u32_of_lt h.fee_lt, Nat.cast_mul, mul_comm]
  have hsmall : fees < 2 ^ 64 := hfees ▸ h.fees_lt
  rw [hcast, ← hfees, u64_of_lt hsmall]
  constructor
  · intro heq
    by_contra hless
    have hwrapped : wrappingSub value fees + fees = value + 2 ^ 64 := by
      rw [wrappingSub, u64_of_lt (by omega)]
      omega
    have hzero : ((2 ^ 64 : Nat) : F) = 0 := by
      have hsum : ((wrappingSub value fees + fees : Nat) : F) = ((value + 2 ^ 64 : Nat) : F) := by
        rw [hwrapped]
      rw [Nat.cast_add, ← heq, Nat.cast_add] at hsum
      exact left_eq_add.mp hsum
    exact h.word_ne_zero hzero
  · intro hle
    rw [wrappingSub_of_le hvalue hle, Nat.cast_sub hle, sub_add_cancel]

end MixnetEnv

section Request

variable [DecidableEq F] [DecidableEq E] {M : MixnetEnv F E} {draws : Draws F}
  {params : MixnetReqCreationParams} {commitment : Commitment} {lockOutput : Bool}
  {w w' : WalletBackend F E} {req : SwapReq F}

omit [DecidableEq F] in
theorem findOutput_eq_ok {o : OutputData E} (h : findOutput M commitment w = .ok o) :
    o ∈ w.store.iter ∧ o.rootKeyId = w.parentKeyId ∧ o.status ≠ .Spent ∧
      M.tools.commitment (Updater.commitOf M.wallet.keychain o) = commitment := by
  unfold findOutput at h
  dsimp only at h
  split at h
  · next found hfound =>
    cases h
    have hcommit : decide (M.tools.commitment found.commit = commitment) = true :=
      List.find?_some (p := fun o : Updater.OutputCommitMapping E =>
        decide (M.tools.commitment o.commit = commitment)) hfound
    have hcommit := of_decide_eq_true hcommit
    have hmem := List.mem_of_find?_eq_some hfound
    unfold Updater.retrieveOutputs at hmem
    obtain ⟨o, ho, hpair⟩ := List.mem_map.mp hmem
    rw [mem_sortByKey, List.mem_filter] at ho
    rw [← hpair] at hcommit ⊢
    have hkept := ho.2
    simp at hkept
    exact ⟨ho.1, hkept.2, hkept.1, hcommit⟩
  · cases h

/-- What a request was made of: the record, the new output's key and amount, and the hops. -/
structure MadeOf (M : MixnetEnv F E) (draws : Draws F) (params : MixnetReqCreationParams)
    (commitment : Commitment) (req : SwapReq F) (o : OutputData E) (newKey : Identifier)
    (newAmount : Nat) (hops : List (Hop F)) : Prop where
  amount_eq : newAmount
    = wrappingSub o.value (u64 (txFee M.wallet.consensus 1 1 1 * params.serverKeys.length))
  hops_eq : swapHops M.tools ⟨M.hopFee⟩
      (M.wallet.keychain.rangeProof newAmount newKey) draws.excess 0
      (M.wallet.keychain.deriveKey newAmount newKey - M.deriveSecret o.value o.keyId)
      params.serverKeys = .ok hops
  onion_eq : req.onion = createOnion M.tools commitment hops draws.ephemeral
  comsig_eq : ComSignature.sign M.tools.toSecp256k1 o.value (M.deriveSecret o.value o.keyId)
    req.onion.serialize false draws.k1 draws.k2 = .ok req.comsig

theorem createMwixnetReq_eq_ok
    (h : createMwixnetReq M draws params commitment lockOutput w = (.ok req, w')) :
    ∃ o newAmount hops, findOutput M commitment w = .ok o ∧
      MadeOf M draws params commitment req o
        (w.parentKeyId.child (w.store.childIndex w.parentKeyId)) newAmount hops ∧
      Eff.runIf (lockOutput = true) (lockSwapped o.keyId) (afterNextChild w) = (.ok (), w') := by
  obtain ⟨w₁, m₁, hread, h⟩ := Eff.bind_eq_ok.mp h
  cases hread
  obtain ⟨o, m₁, hfound, h⟩ := Eff.bind_eq_ok.mp h
  obtain ⟨built, m₂, hbuilt, h⟩ := Eff.bind_eq_ok.mp h
  obtain ⟨keyId, m₃, hkey, hreturn⟩ := Eff.bind_eq_ok.mp hbuilt
  obtain ⟨hops, m₄, hhops, h⟩ := Eff.bind_eq_ok.mp h
  obtain ⟨comsig, m₅, hsig, h⟩ := Eff.bind_eq_ok.mp h
  obtain ⟨done, m₆, hlock, hend⟩ := Eff.bind_eq_ok.mp h
  rw [Eff.run_ofExcept, Prod.mk.injEq] at hfound hhops hsig
  obtain ⟨hfound, rfl⟩ := hfound
  obtain ⟨hhops, rfl⟩ := hhops
  obtain ⟨hsig, rfl⟩ := hsig
  cases hreturn
  cases hend
  have hshallow : w.parentKeyId.depth < 4 := by
    by_contra hdeep
    rw [run_nextChild_deep (by omega)] at hkey
    cases hkey
  rw [run_nextChild hshallow] at hkey
  cases hkey
  exact ⟨o, _, hops, hfound, ⟨rfl, hhops, rfl, except_mapError_eq_ok.mp hsig⟩, hlock⟩

omit [DecidableEq E] in
/-- The keys of the hops arrive at the new output's blinding factor. -/
theorem MadeOf.keepsAPoint_iff {o : OutputData E} {newKey : Identifier} {newAmount : Nat}
    {hops : List (Hop F)}
    (h : MadeOf M draws params commitment req o newKey newAmount hops) :
    KeepsAPoint M.tools (M.wallet.keychain.commit o.value o.keyId) hops ↔
      ∀ k, k + 1 < params.serverKeys.length →
        (M.deriveSecret o.value o.keyId : F)
            + ∑ j ∈ Finset.range (k + 1), (draws.excess j : F) ≠ 0 ∨
          ((o.value : F) - k * M.hopFee ≠ 0 ∧ (o.value : F) - (k + 1) * M.hopFee ≠ 0) := by
  have hblind : (M.deriveSecret o.value o.keyId : F)
      + (M.wallet.keychain.deriveKey newAmount newKey - M.deriveSecret o.value o.keyId) ≠ 0 := by
    rw [add_sub_cancel, ← M.deriveSecret_eq]
    exact Units.ne_zero _
  rw [M.commit_eq, Mwixnet.keepsAPoint_iff h.hops_eq hblind]
  simp only [Nat.zero_add]

omit [DecidableEq E] in
/-- What all hops together make of the commitment. -/
theorem MadeOf.foldl_after {o : OutputData E} {newKey : Identifier} {newAmount : Nat}
    {hops : List (Hop F)}
    (h : MadeOf M draws params commitment req o newKey newAmount hops)
    (hkeys : params.serverKeys ≠ []) :
    hops.foldl (fun P hop => hop.after M.tools P) (M.wallet.keychain.commit o.value o.keyId)
      = ((o.value : F) - params.serverKeys.length * M.hopFee)
          • M.tools.H + (M.deriveSecret newAmount newKey : F) • M.tools.G := by
  obtain ⟨hservers, hfee, hrest⟩ := swapHops_parts h.hops_eq
  obtain ⟨-, hsum⟩ := hrest hkeys
  have hlen : hops.length = params.serverKeys.length := by
    simpa using congrArg List.length hservers
  have hexcess : (hops.map fun hop => (hop.excess : F) • M.tools.G).sum
      = ((M.deriveSecret newAmount newKey : F) - M.deriveSecret o.value o.keyId) • M.tools.G := by
    rw [M.deriveSecret_eq newAmount, ← hsum, List.sum_smul, List.map_map]
    rfl
  have hfees : (hops.map fun hop => (hop.fee.raw : F) • M.tools.H).sum
      = (params.serverKeys.length * M.hopFee : F) • M.tools.H := by
    have hconst : (hops.map fun hop => (hop.fee.raw : F) • M.tools.H)
        = List.replicate hops.length ((M.hopFee : F) • M.tools.H) := by
      rw [← List.map_const']
      exact List.map_congr_left fun hop hmem => by rw [(hfee hop hmem).1]
    rw [hconst, List.sum_replicate, hlen, mul_smul,
      Nat.cast_smul_eq_nsmul F params.serverKeys.length]
  rw [Mwixnet.foldl_after, hexcess, hfees, M.commit_eq, sub_smul, sub_smul]
  abel

omit [DecidableEq E] in
/-- The hops arrive at the new output exactly when it and what they take make up the old one. -/
theorem MadeOf.arrives_iff {o : OutputData E} {newKey : Identifier} {newAmount : Nat}
    {hops : List (Hop F)}
    (h : MadeOf M draws params commitment req o newKey newAmount hops)
    (hkeys : params.serverKeys ≠ []) :
    hops.foldl (fun P hop => hop.after M.tools P) (M.wallet.keychain.commit o.value o.keyId)
        = M.wallet.keychain.commit newAmount newKey ↔
      (o.value : F) = newAmount + params.serverKeys.length * M.hopFee := by
  rw [h.foldl_after hkeys, M.commit_eq newAmount newKey]
  constructor
  · intro heq
    exact sub_eq_iff_eq_add.mp (Pedersen.opening_unique M.tools.independent heq).1
  · intro heq
    rw [sub_eq_iff_eq_add.mpr heq]

omit [DecidableEq E] in
theorem MadeOf.valid {o : OutputData E} {newKey : Identifier} {newAmount : Nat}
    {hops : List (Hop F)}
    (h : MadeOf M draws params commitment req o newKey newAmount hops) (hfits : M.Fits) :
    ∀ hop ∈ hops, hop.Valid M.tools := by
  intro hop hmem
  obtain ⟨hfee, hproof⟩ := (swapHops_parts h.hops_eq).2.1 hop hmem
  have hraw : hop.fee.raw = M.hopFee := by rw [hfee]
  refine ⟨?_, by rw [hraw]; exact hfits.fee_ne_zero, fun p hp => ?_⟩
  · have hlt : M.hopFee < 2 ^ 32 := Nat.mod_lt _ (by decide)
    have hpos : M.hopFee ≠ 0 := by
      intro hzero
      have hne := hfits.fee_ne_zero
      rw [hzero, Nat.cast_zero] at hne
      exact hne rfl
    have hmask : FeeFields.feeMask = 1099511627775 := by decide
    unfold Selection.feeFieldsOf
    rw [hraw, if_neg (by rw [hmask]; omega), ← hraw]
  · rw [hproof p hp]
    exact hfits.proofs _ _

/-- What a request is good for: its signature is accepted for the commitment and the onion, the
servers peel the onion unless the commitment vanishes, and they arrive at the new output exactly
when it and what they take make up the old one. Without servers it stays at the commitment. -/
structure Honoured (M : MixnetEnv F E) (draws : Draws F) (serverKeys : List SecretKey)
    (commitment : Commitment) (req : SwapReq F) (o : OutputData E) (newKey : Identifier) :
    Prop where
  signed : req.comsig.verify M.tools.toSecp256k1 commitment req.onion.serialize = .ok ()
  peeled_iff : (∃ r, Onion.peelEach M.tools req.onion serverKeys = .ok r) ↔
    ∀ k, k + 1 < serverKeys.length →
      (M.deriveSecret o.value o.keyId : F) + ∑ j ∈ Finset.range (k + 1), (draws.excess j : F) ≠ 0 ∨
        ((o.value : F) - k * M.hopFee ≠ 0 ∧ (o.value : F) - (k + 1) * M.hopFee ≠ 0)
  stays : serverKeys = [] → req.onion = ⟨zeroPubkey, commitment, []⟩
  arrives : serverKeys ≠ [] → ∀ payloads last,
    Onion.peelEach M.tools req.onion serverKeys = .ok (payloads, last) →
    let fee := txFee M.wallet.consensus 1 1 1
    let newAmount := wrappingSub o.value (u64 (fee * serverKeys.length))
    let Arrives := M.tools.toPubkey last.commit = some (M.wallet.keychain.commit newAmount newKey)
    (∀ p ∈ payloads, p.fee.raw = M.hopFee) ∧
      payloads.map Payload.rangeproof = List.replicate (serverKeys.length - 1) none
        ++ [some (M.wallet.keychain.rangeProof newAmount newKey)] ∧
      last.encPayloads = [] ∧
      (Arrives ↔ (o.value : F) = newAmount + serverKeys.length * M.hopFee) ∧
      (M.PaysInFull serverKeys.length → (Arrives ↔ fee * serverKeys.length ≤ o.value))

/-- Whatever output a wallet offers to a mix net, its request is honoured by the servers it was made
for: a change of the new output's key, the fees taken from its value. With the output locked, the
record under its key is, and nothing else changes but the next child index. -/
theorem swap_request_honoured (hfits : M.Fits)
    (hrecords : ∀ o ∈ w.store.iter, o.value < 2 ^ 64 ∧
      Updater.commitOf M.wallet.keychain o = M.wallet.keychain.commit o.value o.keyId)
    (hrun : createMwixnetReq M draws params commitment lockOutput w = (.ok req, w')) :
    ∃ o ∈ w.store.iter, (o.rootKeyId = w.parentKeyId ∧ o.status ≠ .Spent ∧
        M.tools.commitment (M.wallet.keychain.commit o.value o.keyId) = commitment) ∧
      Honoured M draws params.serverKeys commitment req o
        (w.parentKeyId.child (w.store.childIndex w.parentKeyId)) ∧
      if lockOutput then
        ∃ r, w.store.get o.keyId none = .ok r ∧ w' = { afterNextChild w with
          store := (afterNextChild w).store.lockOutput r }
      else w' = afterNextChild w := by
  obtain ⟨o, newAmount, hops, hfound, hmade, hlock⟩ := createMwixnetReq_eq_ok hrun
  obtain ⟨hmem, haccount, hunspent, hcommit⟩ := findOutput_eq_ok hfound
  obtain ⟨hvalue, hown⟩ := hrecords o hmem
  rw [hown] at hcommit
  have hpoint : M.tools.toPubkey commitment
      = some (M.wallet.keychain.commit o.value o.keyId) := by
    rw [← hcommit, M.commit_eq]
    exact Secp256k1.toPubkey_commitBlind (.inr (Units.ne_zero _))
  have hservers := (swapHops_parts hmade.hops_eq).1
  have honion : req.onion = Onion.handed M.tools draws.ephemeral 0 commitment hops := by
    rw [hmade.onion_eq, Onion.createOnion_eq_handed]
  have hpeel := @Onion.peelEach_handed F E _ _ _ M.tools _ draws.ephemeral hops params.serverKeys
    hservers (hmade.valid hfits) 0 commitment _ hpoint
  rw [← honion] at hpeel
  refine ⟨o, hmem, ⟨haccount, hunspent, hcommit⟩,
    ⟨?_, ?_, fun hnil => ?_, fun hkeys payloads last hrun => ?_⟩, ?_⟩
  · have hsigned := ComSignature.verify_of_sign hvalue hmade.comsig_eq
    have hsame : M.tools.commit o.value (M.deriveSecret o.value o.keyId : F) = commitment := by
      rw [← hcommit, M.commit_eq]
      rfl
    rwa [hsame] at hsigned
  · rw [← hmade.keepsAPoint_iff]
    constructor
    · intro ⟨r, hr⟩
      exact (hpeel.2 r.1 r.2 hr).1
    · exact hpeel.1
  · -- no hop is made for no server
    rw [hnil] at hservers
    rw [hmade.onion_eq, List.map_eq_nil_iff.mp hservers]
    rfl
  · obtain ⟨-, hparts, hempty, hlast⟩ := hpeel.2 payloads last hrun
    have hamount := hmade.amount_eq
    dsimp only
    rw [← hamount, hlast, Option.some.injEq, hmade.arrives_iff hkeys]
    refine ⟨fun p hp => ?_, ?_, hempty, Iff.rfl, fun hfull => ?_⟩
    · have hhop : (p.excess, p.fee, p.rangeproof)
          ∈ hops.map fun hop => (hop.excess, hop.fee, hop.rangeproof) := by
        rw [← hparts]
        exact List.mem_map_of_mem (f := fun p : Payload F => (p.excess, p.fee, p.rangeproof)) hp
      obtain ⟨hop, hhop, heq⟩ := List.mem_map.mp hhop
      have hfee : hop.fee = p.fee := congrArg (fun t => t.2.1) heq
      rw [← hfee, ((swapHops_parts hmade.hops_eq).2.1 hop hhop).1]
    · have hproofs := congrArg (List.map fun t => t.2.2) hparts
      rw [List.map_map, List.map_map] at hproofs
      exact hproofs.trans ((swapHops_parts hmade.hops_eq).2.2 hkeys).1
    · rw [hamount]
      exact hfull.adds_up_iff hvalue
  · cases lockOutput with
    | false =>
        cases hlock
        rfl
    | true =>
        rw [Eff.runIf, if_pos rfl] at hlock
        obtain ⟨s, hs, rfl⟩ := batch_eq_ok.mp hlock
        obtain ⟨r, hr, hend⟩ := except_bind_eq_ok.mp hs
        cases hend
        exact ⟨r, hr, rfl⟩

end Request

namespace SampleSwap

theorem env_fits : env.Fits where
  fee_ne_zero := by decide
  proofs _ _ := SampleCodecs.prefixedWord_valid SampleCodecs.range_proof_fits (by decide)
    (show 8 < 256 by decide)

theorem env_paysInFull : env.PaysInFull 2 where
  fee_lt := by decide
  fees_lt := by decide
  word_ne_zero := by decide +kernel

/-- Two servers with a fee of 25 nanogrin each make ten of the sixty. -/
theorem swap_request_honoured_sixty :
    ∃ req w', request = (.ok req, w') ∧
      ∃ payloads last, Onion.peelEach tools req.onion [5, 9] = .ok (payloads, last) ∧
        tools.toPubkey last.commit = some (keychain.commit 10 (defaultPath.child 1)) := by
  obtain ⟨req, w', hrun⟩ : ∃ req w', request = (.ok req, w') := by
    have hok : request.1.isOk = true := by decide +kernel
    cases h : request with
    | mk r w' =>
        cases r with
        | ok req => exact ⟨req, w', rfl⟩
        | error e =>
            rw [h] at hok
            cases hok
  have hrecords : ∀ o ∈ wallet.store.iter, o.value < 2 ^ 64 ∧
      Updater.commitOf keychain o = keychain.commit o.value o.keyId := by
    intro o ho
    rw [show wallet.store.iter = [coin] from rfl, List.mem_singleton] at ho
    rw [ho]
    exact ⟨by decide, rfl⟩
  obtain ⟨o, hmem, _, hhonoured, _⟩ := swap_request_honoured env_fits hrecords hrun
  rw [show wallet.store.iter = [coin] from rfl, List.mem_singleton] at hmem
  subst hmem
  obtain ⟨⟨payloads, last⟩, hpeeled⟩ := hhonoured.peeled_iff.mpr fun k hk => by
    obtain rfl : k = 0 := by
      have hlt : k + 1 < 2 := hk
      omega
    exact .inl (by decide +kernel)
  obtain ⟨-, -, -, -, hfull⟩ := hhonoured.arrives (by decide) payloads last hpeeled
  exact ⟨req, w', hrun, payloads, last, hpeeled, (hfull env_paysInFull).mpr (by decide)⟩

end SampleSwap

end Mwixnet

end GrinWallet
