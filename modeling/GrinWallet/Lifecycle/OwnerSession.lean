import GrinWallet.Model.OwnerSession
import Mathlib.Data.ZMod.Basic

/-! # The session of the owner API over any interleaving

Requests are served concurrently, and any of them may negotiate a new key in the
middle of the others. No thread ever finds the key gone; apart from a plain
`init_secure_api` nothing runs that was not sealed under a negotiated key; and no
other reply than an error leaves unsealed. While the key stays, a client that
holds it reads in each reply what its request was answered with.
-/

namespace GrinWallet.OwnerV3

open Effect Sections Wire

/-! ## Sealed values -/

theorem fromUtf8_utf8Bytes (s : String) : fromUtf8 (utf8Bytes s) = some s := by
  have hbytes : ByteArray.mk s.toUTF8.data.toList.toArray = s.toUTF8 := by simp
  unfold fromUtf8 utf8Bytes
  rw [hbytes, String.fromUTF8?, String.toUTF8_eq_toByteArray, dif_pos s.isValidUTF8]
  rfl

/-- The codes and the cipher open what they made. -/
structure Sealing.Lawful (S : Sealing) : Prop where
  open_seal : ∀ {key nonce msg sealed}, S.sealInPlaceAppendTag key nonce msg = some sealed →
    ∃ tag, tag.length = 16 ∧ S.openInPlace key nonce sealed = some (msg ++ tag)
  base64 : ∀ bs, S.base64Decode (S.base64Encode bs) = some bs
  hex : ∀ bs, S.fromHex (S.toHex bs) = some bs

/-- A value whose text reads back. -/
def Sealing.Reads (S : Sealing) (v : JsonValue) : Prop := S.fromStr (S.toString v) = some v

section Sealing

variable {S : Sealing} {nonce : Bytes} {key : SecretKey} {v : JsonValue}

/-- What was sealed opens under the same key. -/
theorem EncryptedBody.decrypt_fromJson (hS : S.Lawful) (hnonce : nonce.length = 12) (hv : S.Reads v)
    {body : EncryptedBody} (h : fromJson S nonce v key = .ok body) : body.decrypt S key = .ok v := by
  unfold fromJson at h
  cases hseal : S.sealInPlaceAppendTag key nonce (utf8Bytes (S.toString v)) with
  | none => simp [hseal] at h
  | some sealed =>
      simp only [hseal, Except.ok.injEq] at h
      obtain ⟨tag, htag, hopen⟩ := hS.open_seal hseal
      have hmsg : (utf8Bytes (S.toString v) ++ tag).take
          ((utf8Bytes (S.toString v) ++ tag).length - 16) = utf8Bytes (S.toString v) := by
        rw [List.length_append, htag, Nat.add_sub_cancel, List.take_left]
      have hlong : ¬ nonce.length < 12 := by omega
      have hall : nonce.take 12 = nonce := List.take_of_length_le (by omega)
      subst h
      simp only [decrypt, hS.base64, hS.hex, Option.elim, bind, Except.bind, if_neg hlong, hall, hopen,
        hmsg, fromUtf8_utf8Bytes]
      rw [show S.fromStr (S.toString v) = some v from hv]

@[simp] theorem JsonId.fromValue_toValue (id : JsonId) : fromValue id.toValue = some id := by
  cases id with
  | IntId n =>
      have hlt : n.toNat < 2 ^ 32 := n.toNat_lt
      simp only [toValue, fromValue]
      rw [if_pos (by omega), Int.toNat_natCast, UInt32.ofNat_toNat]
  | StrId s => rfl

@[simp] theorem EncryptedBody.fromValue_toValue (body : EncryptedBody) :
    fromValue body.toValue = some body := by
  simp [toValue, fromValue, JsonValue.fields, List.lookup_cons]

@[simp] theorem EncryptedRequest.fromValue_asJsonValue (req : EncryptedRequest) :
    fromValue req.asJsonValue = some req := by
  simp [asJsonValue, fromValue, JsonValue.fields, List.lookup_cons]

/-- A client reads in a response what was sealed in it. -/
theorem EncryptedResponse.decrypt_fromJson (hS : S.Lawful) (hnonce : nonce.length = 12)
    (hv : S.Reads v) {id : JsonId} {res : EncryptedResponse} (h : fromJson S nonce id v key = .ok res) :
    (fromValue res.asJsonValue).bind (·.decrypt S key) = some (.ok v) := by
  obtain ⟨body, hbody, hres⟩ := except_bind_eq_ok.mp h
  cases hres
  have hopen := EncryptedBody.decrypt_fromJson hS hnonce hv hbody
  simp [asJsonValue, fromValue, JsonValue.fields, List.lookup_cons, decrypt, hopen]

/-- Sealing fails only in the cipher. -/
theorem EncryptedResponse.fromJson_error {id : JsonId} {e : ApiError}
    (h : fromJson S nonce id v key = .error e) :
    e = .APIEncryption "EncryptedBody: encryption failed" := by
  unfold fromJson EncryptedBody.fromJson at h
  cases hseal : S.sealInPlaceAppendTag key nonce (utf8Bytes (S.toString v)) with
  | none =>
      rw [hseal] at h
      exact (Except.error.inj h).symm
  | some sealed =>
      rw [hseal] at h
      cases h

end Sealing

/-! ## The key over a run -/

section Handler

variable {F E W : Type} {env : OwnerEnv F E W}

/-- Every key in use is a negotiated one. -/
def Negotiated (s : HandlerState W) : Prop :=
  (∀ k ∈ s.sharedKey, k ∈ s.negotiated) ∧ ∀ k ∈ s.apiSharedKey, k ∈ s.negotiated

/-- No key is taken away. -/
def KeysKept (s s' : HandlerState W) : Prop :=
  s.negotiated ⊆ s'.negotiated ∧ (s.sharedKey.isSome → s'.sharedKey.isSome) ∧
    (s.apiSharedKey.isSome → s'.apiSharedKey.isSome)

instance : Std.Refl (KeysKept (W := W)) := ⟨fun _ => ⟨List.Subset.refl _, id, id⟩⟩

instance : IsTrans (HandlerState W) KeysKept :=
  ⟨fun _ _ _ h h' => ⟨List.Subset.trans h.1 h'.1, h'.2.1 ∘ h.2.1, h'.2.2 ∘ h.2.2⟩⟩

/-- A method other than `init_secure_api` leaves the keys. -/
def SameKeys (s s' : HandlerState W) : Prop :=
  s'.sharedKey = s.sharedKey ∧ s'.apiSharedKey = s.apiSharedKey ∧ s'.negotiated = s.negotiated

theorem SameKeys.kept {s s' : HandlerState W} (h : SameKeys s s') : KeysKept s s' := by
  obtain ⟨h1, h2, h3⟩ := h
  unfold KeysKept
  rw [h1, h2, h3]
  exact ⟨List.Subset.refl _, id, id⟩

theorem SameKeys.negotiated {s s' : HandlerState W} (h : SameKeys s s') (hs : Negotiated s) :
    Negotiated s' := by
  obtain ⟨h1, h2, h3⟩ := h
  unfold Negotiated
  rw [h1, h2, h3]
  exact hs

/-- A reply that shows nothing to who does not hold a negotiated key. -/
def Protected (env : OwnerEnv F E W) (s : HandlerState W) (reply : JsonValue) : Prop :=
  (∃ code message, reply = encryptionErrorResponse 1 code message) ∨ reply = .array [] ∨
    ∃ key ∈ s.negotiated, ∃ nonce id res encRes,
      EncryptedResponse.fromJson env.sealing nonce id res key = .ok encRes ∧ reply = encRes.asJsonValue

/-- How a request sealed under `key` is answered: by what the framework answered, sealed under
the same key, or by the error of a failed sealing. -/
def Answered (env : OwnerEnv F E W) (P : JsonValue → Option JsonValue → Prop) (key : SecretKey)
    (val reply : JsonValue) : Prop :=
  (P val none ∧ reply = .array []) ∨
    ∃ r i id, P val (some r) ∧
      (encryptResponse env key (env.nonce i) id (checkErrorResponse env r).2 = .ok reply ∨
        encryptResponse env key (env.nonce i) id (checkErrorResponse env r).2 = .error reply)

/-- The state between sections, with the key the handler is held at. -/
def Settled (held : Option SecretKey) (s : HandlerState W) : Prop :=
  Negotiated s ∧ ∀ key ∈ held, s.sharedKey = some key

/-- While the handler is held at a key, no thread stores another. -/
def Section.Allowed (held : Option SecretKey) (label : Section) (s : HandlerState W) : Prop :=
  match label with
  | .updateSharedKey reply => (okString reply).isSome → ∀ key ∈ held, s.apiSharedKey = some key
  | _ => True

/-- What holds where a section is taken, when the framework answers as `P` says. -/
def Honest (env : OwnerEnv F E W) (P : JsonValue → Option JsonValue → Prop) (held : Option SecretKey)
    (s : HandlerState W) : Section → Prop
  | .handleRequest val sealedUnder =>
      (sealedUnder = none ∧ isInitSecureApi val = true) ∨ ∃ key ∈ s.negotiated, sealedUnder = some key
  | .respond val reply => isInitSecureApi val = false → Protected env s reply ∧
      ∀ key ∈ held, ∀ id inner, decryptRequest env key val = .ok (id, inner) →
        isInitSecureApi inner = false → Answered env P key inner reply
  | .panic => False
  | _ => True

def Guarantee (env : OwnerEnv F E W) (P : JsonValue → Option JsonValue → Prop)
    (held : Option SecretKey) (label : Section) (s s' : HandlerState W) : Prop :=
  Honest env P held s label ∧ KeysKept s s'

theorem Protected.stable {s s' : HandlerState W} {reply : JsonValue} (h : Protected env s reply)
    (hkept : KeysKept s s') : Protected env s' reply := by
  rcases h with h | h | ⟨key, hkey, h⟩
  · exact .inl h
  · exact .inr (.inl h)
  · exact .inr (.inr ⟨key, hkept.1 hkey, h⟩)

/-! ## One call among the others -/

variable {P : JsonValue → Option JsonValue → Prop} {held : Option SecretKey}

/-- A thread of the handler among the others. -/
abbrev SafeCall (env : OwnerEnv F E W) (P : JsonValue → Option JsonValue → Prop)
    (held : Option SecretKey) {α : Type} (Q : α → HandlerState W → Prop) (t : HandlerThread W α)
    (s : HandlerState W) : Prop :=
  t.Safe (Settled held) KeysKept (Section.Allowed held) (Guarantee env P held) Q s

/-- What no other thread can break still holds when a thread returns. -/
theorem safeCall_frame {α : Type} {J : HandlerState W → Prop} {Q : α → HandlerState W → Prop}
    {t : HandlerThread W α} {s : HandlerState W} (h : SafeCall env P held Q t s)
    (hJ : ∀ s s', KeysKept s s' → J s → J s') (hs : J s) :
    SafeCall env P held (fun a s => Q a s ∧ J s) t s :=
  h.frame hJ (fun _ _ _ hg => hg.2) hs

theorem SameKeys.settled {s s' : HandlerState W} (h : SameKeys s s') (hs : Settled held s) :
    Settled held s' :=
  ⟨h.negotiated hs.1, fun key hkey => h.1.trans (hs.2 key hkey)⟩

/-- Where the handler has a key, unwrapping it gives a negotiated one, the one it is held at. -/
theorem unwrapKey_safe {α : Type} {label : Section} {body : HandlerM W (Option SecretKey × α)}
    {Q : α → Prop} (hlabel : ∀ s, Honest env P held s label)
    (hbody : ∀ s, ∃ a s', body s = (.ok (s.sharedKey, a), s') ∧ SameKeys s s' ∧ Q a)
    {s : HandlerState W} (hs : s.sharedKey.isSome) :
    SafeCall env P held (fun (r : SecretKey × α) s =>
      r.1 ∈ s.negotiated ∧ (∀ key ∈ held, r.1 = key) ∧ Q r.2) (unwrapKey label body) s := by
  refine Thread.Safe.andThen (Q := fun (r : Option SecretKey × α) s =>
    ∃ key, r.1 = some key ∧ key ∈ s.negotiated ∧ (∀ k ∈ held, key = k) ∧ Q r.2) ?_ ?_
  · refine Thread.Safe.atomic fun s' hR hI _ => ?_
    obtain ⟨a, s'', hrun, hsame, hQ⟩ := hbody s'
    obtain ⟨key, hkey⟩ := Option.isSome_iff_exists.mp (hR.2.1 hs)
    rw [hrun]
    refine ⟨⟨hlabel s', hsame.kept⟩, hsame.settled hI, fun r hr => ?_⟩
    cases hr
    refine ⟨key, hkey, hsame.kept.1 (hI.1.1 key hkey), fun k hk => ?_, hQ⟩
    have hheld := hI.2 k hk
    rw [hkey] at hheld
    exact Option.some.inj hheld
  · rintro ⟨_, a⟩ s' ⟨key, rfl, h⟩
    exact h

variable [CommRing F] [AddCommGroup E] [Module F E] [DecidableEq F]

/-- The sections of a request the framework dispatches: runs of `init_secure_api`, alone or in a
batch, and of methods that leave the keys. -/
inductive FrameworkSection (env : OwnerEnv F E W) (key : Option SecretKey) :
    (β : Type) → Section → HandlerM W β → Prop
  | init (val : JsonValue) (ecdhPubkey : E) : FrameworkSection env key (Except String E)
      (.handleRequest val key) (initSecureApi env ecdhPubkey)
  | other {β : Type} (val : JsonValue) {body : HandlerM W β} (h : Eff.Moves SameKeys body) :
      FrameworkSection env key β (.handleRequest val key) body

/-- What the framework promises. -/
structure OwnerEnv.Lawful (env : OwnerEnv F E W) : Prop where
  dispatch : ∀ key val, (env.dispatch key val).MadeOf (FrameworkSection env key)
  /-- An error reply has no `Ok` result. -/
  invalid : ∀ {val reply}, env.initCall val = .invalid reply → okString reply = none
  sealing : env.sealing.Lawful
  nonce : ∀ i, (env.nonce i).length = 12
  pubkeyHex : Function.Injective env.pubkeyHex

/-- `init_secure_api` ends with an error and the keys it found, or with a new key for the API. -/
theorem initSecureApi_cases (env : OwnerEnv F E W) (ecdhPubkey : E) (s : HandlerState W) :
    (∃ e, (initSecureApi env ecdhPubkey s).1 = .ok (.error e) ∧
      SameKeys s (initSecureApi env ecdhPubkey s).2) ∨
    ∃ k, sharedSecret env (env.secretKey s.draws) ecdhPubkey = some k ∧
      initSecureApi env ecdhPubkey s = (.ok (.ok (env.curve.publicKey (env.secretKey s.draws))),
        { s with draws := s.draws + 1, apiSharedKey := some k, negotiated := k :: s.negotiated }) := by
  cases hk : sharedSecret env (env.secretKey s.draws) ecdhPubkey with
  | none =>
      refine .inl ⟨"InvalidSecretKey", ?_⟩
      simp [initSecureApi, Eff.run_bind, hk, SameKeys]
  | some k =>
      refine .inr ⟨k, rfl, ?_⟩
      simp [initSecureApi, Eff.run_bind, Eff.run_map, hk]

theorem initSecureApi_settled (env : OwnerEnv F E W) (ecdhPubkey : E) {s : HandlerState W} (hs : Settled held s) :
    KeysKept s (initSecureApi env ecdhPubkey s).2 ∧ Settled held (initSecureApi env ecdhPubkey s).2 := by
  rcases initSecureApi_cases env ecdhPubkey s with ⟨e, -, hsame⟩ | ⟨k, -, hrun⟩
  · exact ⟨hsame.kept, hsame.settled hs⟩
  · rw [hrun]
    refine ⟨⟨List.subset_cons_self k _, id, fun _ => rfl⟩, ⟨fun k' hk' => ?_, fun k' hk' => ?_⟩, hs.2⟩
    · exact List.mem_cons_of_mem k (hs.1.1 k' hk')
    · cases hk'
      exact List.mem_cons_self

/-- A request is handled when it is a plain `init_secure_api` or came under a negotiated key. -/
theorem handleRequest_safe (hlaw : env.Lawful) (hP : ∀ key val, (env.dispatch key val).Returns (P val))
    {sealedUnder : Option SecretKey} {val : JsonValue} {s : HandlerState W}
    (hs : (sealedUnder = none ∧ isInitSecureApi val = true) ∨ ∃ key ∈ s.negotiated, sealedUnder = some key) :
    SafeCall env P held (fun r s =>
      (isInitSecureApi val = true → ∀ reply ∈ r, (okString reply).isSome → s.apiSharedKey.isSome) ∧
        (isInitSecureApi val = false → P val r)) (handleRequest env sealedUnder val) s := by
  unfold handleRequest
  by_cases hinit : isInitSecureApi val = true
  · rw [if_pos hinit]
    cases hcall : env.initCall val with
    | invalid reply =>
        refine ⟨fun _ r hr hok => ?_, fun h => ?_⟩
        · cases hr
          rw [hlaw.invalid hcall] at hok
          cases hok
        · rw [hinit] at h
          cases h
    | run ecdhPubkey notification =>
        refine Thread.Safe.andThen (Q := fun r s => ∀ pubkey, r = .ok pubkey → s.apiSharedKey.isSome)
          ?_ fun r s' hr => ?_
        · refine Thread.Safe.atomic fun s' hR hI _ => ?_
          have hhonest : Honest env P held s' (.handleRequest val sealedUnder) := by
            rcases hs with hs | ⟨key, hkey, hs⟩
            · exact .inl hs
            · exact .inr ⟨key, hR.1 hkey, hs⟩
          obtain ⟨hkept, hsettled⟩ := initSecureApi_settled env ecdhPubkey hI
          refine ⟨⟨hhonest, hkept⟩, hsettled, fun r hr pubkey hpub => ?_⟩
          rcases initSecureApi_cases env ecdhPubkey s' with ⟨e, he, -⟩ | ⟨k, -, hrun⟩
          · rw [he] at hr
            cases hr
            cases hpub
          · rw [hrun]
            rfl
        · refine ⟨fun _ reply hreply hok => ?_, fun h => ?_⟩
          · cases notification with
            | true => cases hreply
            | false =>
                cases hreply
                cases r with
                | ok pubkey => exact hr pubkey rfl
                | error e => simp [okString, initReply, JsonValue.index, JsonValue.get, JsonValue.asStr,
                    List.lookup_cons] at hok
          · rw [hinit] at h
            cases h
  · rw [if_neg hinit]
    have hkey : ∃ key ∈ s.negotiated, sealedUnder = some key := by
      rcases hs with ⟨-, h⟩ | hs
      · exact (hinit h).elim
      · exact hs
    have hsafe : SafeCall env P held (fun _ s => ∃ key ∈ s.negotiated, sealedUnder = some key)
        (env.dispatch sealedUnder val) s := by
      refine Thread.MadeOf.safe_of (fun s s' hR ⟨key, hkey, h⟩ => ⟨key, hR.1 hkey, h⟩) ?_
        (hlaw.dispatch sealedUnder val) hkey
      intro β label body s' hsection _ hI hJ
      cases hsection with
      | init v ecdhPubkey =>
          obtain ⟨hkept, hsettled⟩ := initSecureApi_settled env ecdhPubkey hI
          refine ⟨⟨.inr hJ, hkept⟩, hsettled, ?_⟩
          obtain ⟨key, hkey, h⟩ := hJ
          exact ⟨key, hkept.1 hkey, h⟩
      | other v hmoves =>
          have hsame := hmoves s'
          obtain ⟨key, hkey, h⟩ := hJ
          exact ⟨⟨.inr ⟨key, hkey, h⟩, hsame.kept⟩, hsame.settled hI, key, hsame.kept.1 hkey, h⟩
    refine (hsafe.and_returns (hP sealedUnder val)).mono fun r s' h => ?_
    exact ⟨fun h' => (hinit h').elim, fun _ => h.2⟩

omit [CommRing F] [AddCommGroup E] [Module F E] [DecidableEq F] in
/-- Only a reply with an `Ok` result still has one after its errors are converted. -/
theorem okString_checkErrorResponse {r : JsonValue}
    (h : (okString (checkErrorResponse env r).2).isSome) : (okString r).isSome := by
  unfold checkErrorResponse at h
  cases hmessage : errorMessage env ((r.index "result").index "Err") with
  | some m =>
      rw [hmessage] at h
      simp [okString, JsonValue.index, JsonValue.get, JsonValue.asStr, List.lookup_cons] at h
  | none =>
      rw [hmessage] at h
      exact h

omit [CommRing F] [AddCommGroup E] [Module F E] [DecidableEq F] in
/-- A reply to a sealed request is sealed under the key of the moment. -/
theorem protect_safe {id : JsonId} {key : SecretKey} {r intercept : JsonValue} {s : HandlerState W}
    (hs : s.sharedKey.isSome) :
    SafeCall env P held (fun x s => ∃ k ∈ s.negotiated, (∀ key ∈ held, k = key) ∧
      ∃ i, x = encryptResponse env k (env.nonce i) id intercept)
      (protect env (some (id, key)) r intercept) s := by
  have hread : ∀ s : HandlerState W, ∃ a s', readKeyAndNonce env s = (.ok (s.sharedKey, a), s') ∧
      SameKeys s s' ∧ ∃ i, a = env.nonce i := fun s =>
    ⟨env.nonce s.draws, { s with draws := s.draws + 1 }, rfl, ⟨rfl, rfl, rfl⟩, s.draws, rfl⟩
  have hlabel : ∀ s : HandlerState W, Honest env P held s .encryptResponse := fun _ => trivial
  refine (unwrapKey_safe hlabel hread hs).andThen ?_
  rintro ⟨k, nonce⟩ s' ⟨hk, hheld, i, rfl⟩
  exact ⟨k, hk, hheld, i, rfl⟩

omit [CommRing F] [AddCommGroup E] [Module F E] [DecidableEq F] in
theorem updateMask_sameKeys (env : OwnerEnv F E W) (r : JsonValue) : Eff.Moves SameKeys (updateMask (W := W) env r) := by
  intro s
  unfold updateMask
  cases okString r with
  | none => exact ⟨rfl, rfl, rfl⟩
  | some key =>
      cases hsk : (env.sealing.fromHex key).bind env.secretKeyFromSlice with
      | none =>
          simp only [hsk]
          exact ⟨rfl, rfl, rfl⟩
      | some sk =>
          simp only [hsk]
          exact ⟨rfl, rfl, rfl⟩

omit [CommRing F] [AddCommGroup E] [Module F E] [DecidableEq F] in
theorem encryptResponse_protected {s : HandlerState W} {key : SecretKey} (hkey : key ∈ s.negotiated)
    {nonce : Bytes} {id : JsonId} {res reply : JsonValue}
    (h : encryptResponse env key nonce id res = .ok reply ∨ encryptResponse env key nonce id res = .error reply) :
    Protected env s reply := by
  unfold encryptResponse at h
  cases hres : EncryptedResponse.fromJson env.sealing nonce id res key with
  | ok encRes =>
      simp only [hres, Except.ok.injEq, reduceCtorEq, or_false] at h
      exact .inr (.inr ⟨key, hkey, nonce, id, res, encRes, hres, h.symm⟩)
  | error e =>
      simp only [hres, Except.error.injEq, reduceCtorEq, false_or] at h
      exact .inl ⟨-32003, _, h.symm⟩

/-- What a call owes for a request that came sealed. -/
def Fulfilled (env : OwnerEnv F E W) (P : JsonValue → Option JsonValue → Prop)
    (held : Option SecretKey) (val reply : JsonValue) (s : HandlerState W) : Prop :=
  Protected env s reply ∧
    ∀ key ∈ held, isInitSecureApi val = false → Answered env P key val reply

omit [CommRing F] [AddCommGroup E] [Module F E] [DecidableEq F] in
theorem Fulfilled.stable {s s' : HandlerState W} {val reply : JsonValue} (hkept : KeysKept s s')
    (h : Fulfilled env P held val reply s) : Fulfilled env P held val reply s' :=
  ⟨h.1.stable hkept, h.2⟩

/-- A request in hand is answered as it came. -/
theorem answer_safe (hlaw : env.Lawful) (hP : ∀ key val, (env.dispatch key val).Returns (P val))
    {runningForeign : Bool} {encrypted : Option (JsonId × SecretKey)} {val : JsonValue}
    {s : HandlerState W} (hplain : encrypted = none → isInitSecureApi val = true)
    (hsealed : ∀ p ∈ encrypted, s.sharedKey.isSome ∧ p.2 ∈ s.negotiated) :
    SafeCall env P held (fun reply s => encrypted.isSome → Fulfilled env P held val reply s)
      (answer env runningForeign encrypted val) s := by
  have hvia : (encrypted.map Prod.snd = none ∧ isInitSecureApi val = true) ∨
      ∃ key ∈ s.negotiated, encrypted.map Prod.snd = some key := by
    cases encrypted with
    | none => exact .inl ⟨rfl, hplain rfl⟩
    | some p => exact .inr ⟨p.2, (hsealed p rfl).2, rfl⟩
  have hkey : encrypted.isSome → s.sharedKey.isSome := fun h => by
    obtain ⟨p, hp⟩ := Option.isSome_iff_exists.mp h
    exact (hsealed p hp).1
  refine Thread.Safe.andThen (safeCall_frame (J := fun s => encrypted.isSome → s.sharedKey.isSome)
    (handleRequest_safe hlaw hP hvia) (fun _ _ hR h he => hR.2.1 (h he)) hkey) ?_
  rintro (_ | r) s₁ ⟨⟨hinit, hanswer⟩, hkey₁⟩
  · exact fun _ => ⟨.inr (.inl rfl), fun _ _ hval => .inl ⟨hanswer hval, rfl⟩⟩
  · -- what the rest of the call needs of the keys
    have hmasked : SafeCall env P held (fun _ s => (isInitSecureApi val = true →
          (okString r).isSome → s.apiSharedKey.isSome) ∧ (encrypted.isSome → s.sharedKey.isSome))
        (Thread.runIf (isOpenWallet val = true ∧ runningForeign = true)
          (Thread.atomic .updateMask (updateMask env r))) s₁ := by
      refine Thread.Safe.runIf ⟨fun h => hinit h r rfl, hkey₁⟩ fun _ => ?_
      refine Thread.Safe.atomic fun s' hR hI _ => ?_
      have hsame := updateMask_sameKeys env r s'
      have hkept := hsame.kept
      exact ⟨⟨trivial, hkept⟩, hsame.settled hI, fun _ _ =>
        ⟨fun h h' => hkept.2.2 (hR.2.2 (hinit h r rfl h')), fun h => hkept.2.1 (hR.2.1 (hkey₁ h))⟩⟩
    refine hmasked.andThen fun _ s₂ ⟨hinit₂, hkey₂⟩ => ?_
    have hprotected : SafeCall env P held (fun x s => (encrypted.isSome → ∀ reply,
          (x = .ok reply ∨ x = .error reply) → Fulfilled env P held val reply s) ∧
            (isInitSecureApi val = true → (okString r).isSome → s.apiSharedKey.isSome))
        (protect env encrypted r (checkErrorResponse env r).2) s₂ := by
      cases encrypted with
      | none => exact ⟨fun h => (nomatch h), hinit₂⟩
      | some p =>
          refine (safeCall_frame (J := fun s => isInitSecureApi val = true → (okString r).isSome →
            s.apiSharedKey.isSome) (protect_safe (hkey₂ rfl))
            (fun _ _ hR h hi ho => hR.2.2 (h hi ho)) hinit₂).mono fun x s' ⟨⟨k, hk, hheld, i, hx⟩, hrest⟩ => ⟨fun _ reply hreply => ?_, hrest⟩
          rw [hx] at hreply
          refine ⟨encryptResponse_protected hk hreply, fun key hkey hval => ?_⟩
          rw [hheld key hkey] at hreply
          exact .inr ⟨r, i, p.1, hanswer hval, hreply⟩
    refine hprotected.andThen fun x s₃ ⟨hreply, hinit₃⟩ => ?_
    cases x with
    | error v => exact fun h => hreply h v (.inr rfl)
    | ok reply =>
        refine Thread.Safe.andThen (Q := fun _ s => encrypted.isSome → Fulfilled env P held val reply s)
          ?_ fun _ _ h => h
        refine Thread.Safe.runIf (fun h => hreply h reply (.inl rfl)) fun hval => ?_
        refine Thread.Safe.atomic fun s' hR hI hallow => ?_
        have hstable : encrypted.isSome → Fulfilled env P held val reply s' := fun h =>
          (hreply h reply (.inl rfl)).stable hR
        unfold updateOwnerApiSharedKey Eff.runIf
        by_cases hok : (okString (checkErrorResponse env r).2).isSome = true
        · rw [if_pos hok]
          have hapi := hR.2.2 (hinit₃ hval (okString_checkErrorResponse hok))
          have hkept : KeysKept s' { s' with sharedKey := s'.apiSharedKey } :=
            ⟨List.Subset.refl _, fun _ => hapi, id⟩
          exact ⟨⟨trivial, hkept⟩, ⟨⟨hI.1.2, hI.1.2⟩, hallow hok⟩, fun _ _ h => (hstable h).stable hkept⟩
        · rw [if_neg hok]
          exact ⟨⟨trivial, Std.Refl.refl _⟩, hI, fun _ _ => hstable⟩

omit [CommRing F] [AddCommGroup E] [Module F E] [DecidableEq F] in
theorem decryptRequest_error {key : SecretKey} {req v : JsonValue}
    (h : decryptRequest env key req = .error v) :
    ∃ code message, v = encryptionErrorResponse 1 code message := by
  unfold decryptRequest at h
  cases hreq : EncryptedRequest.fromValue req with
  | none =>
      simp only [hreq, Except.error.injEq] at h
      exact ⟨-32002, _, h.symm⟩
  | some encReq =>
      cases hdec : encReq.decrypt env.sealing key with
      | ok res => simp [hreq, hdec] at h
      | error e =>
          simp only [hreq, hdec, Except.error.injEq] at h
          exact ⟨-32002, _, h.symm⟩

/-- A request that is no plain `init_secure_api` is answered under a key or with an error. -/
theorem callApi_safe (hlaw : env.Lawful) (hP : ∀ key val, (env.dispatch key val).Returns (P val))
    (runningForeign : Bool) (val : JsonValue) (s : HandlerState W) :
    SafeCall env P held (fun reply s => isInitSecureApi val = false → Protected env s reply ∧
      ∀ key ∈ held, ∀ id inner, decryptRequest env key val = .ok (id, inner) →
        isInitSecureApi inner = false → Answered env P key inner reply)
      (callApi env runningForeign val) s := by
  unfold callApi
  by_cases hinit : isInitSecureApi val = true
  · rw [if_pos hinit]
    refine (answer_safe hlaw hP (fun _ => hinit) (by simp)).mono fun reply s' _ h => ?_
    rw [hinit] at h
    cases h
  · rw [if_neg hinit]
    refine Thread.Safe.andThen (Q := fun s₀ s => (s₀.sharedKey.isSome → s.sharedKey.isSome) ∧
      ∀ key ∈ held, s₀.sharedKey = some key) ?_ fun s₀ s₁ hstart => ?_
    · refine Thread.Safe.atomic fun s' _ hI _ => ⟨⟨trivial, Std.Refl.refl _⟩, hI, fun a ha => ?_⟩
      cases ha
      exact ⟨id, hI.2⟩
    obtain ⟨hsome, hheld⟩ := hstart
    unfold checkEncryptionStarted
    by_cases hstarted : s₀.sharedKey.isSome = true
    · rw [if_pos hstarted]
      have hread : ∀ s : HandlerState W, ∃ a s', readKey s = (.ok (s.sharedKey, a), s') ∧
          SameKeys s s' ∧ True := fun s => ⟨(), s, rfl, ⟨rfl, rfl, rfl⟩, trivial⟩
      have hlabel : ∀ s : HandlerState W, Honest env P held s .decryptRequest := fun _ => trivial
      refine Thread.Safe.andThen (safeCall_frame (J := fun s => s.sharedKey.isSome)
        (unwrapKey_safe hlabel hread (hsome hstarted)) (fun _ _ hR h => hR.2.1 h) (hsome hstarted)) ?_
      rintro ⟨k, _⟩ s₂ ⟨⟨hk, hkheld, -⟩, hkey⟩
      dsimp only
      cases hdec : decryptRequest env k val with
      | error v =>
          refine fun _ => ⟨.inl (decryptRequest_error hdec), fun key hheldkey id inner hok => ?_⟩
          · rw [← hkheld key hheldkey, hdec] at hok
            cases hok
      | ok p =>
          obtain ⟨id, inner⟩ := p
          have hsealed : ∀ p ∈ some (id, k), s₂.sharedKey.isSome ∧ p.2 ∈ s₂.negotiated := by
            rintro p ⟨⟩
            exact ⟨hkey, hk⟩
          refine (answer_safe hlaw hP (by simp) hsealed).mono fun reply s' h _ => ?_
          obtain ⟨hprot, hanswered⟩ := h rfl
          refine ⟨hprot, fun key hheldkey id' inner' hok => ?_⟩
          rw [← hkheld key hheldkey, hdec] at hok
          cases hok
          exact hanswered key hheldkey
    · rw [if_neg hstarted]
      refine fun _ => ⟨.inl ⟨-32001, _, rfl⟩, fun key hkey => ?_⟩
      rw [hheld key hkey] at hstarted
      exact (hstarted rfl).elim

theorem handlePostRequest_safe (hlaw : env.Lawful)
    (hP : ∀ key val, (env.dispatch key val).Returns (P val)) (runningForeign : Bool) (val : JsonValue)
    (s : HandlerState W) :
    SafeCall env P held (fun _ _ => True) (handlePostRequest env runningForeign val) s := by
  refine (callApi_safe hlaw hP runningForeign val s).andThen fun reply s₁ hreply => ?_
  refine Thread.Safe.atomic fun s' hR hI _ => ⟨⟨fun h => ?_, Std.Refl.refl _⟩, hI, fun _ _ => trivial⟩
  obtain ⟨hprot, hanswered⟩ := hreply h
  exact ⟨hprot.stable hR, hanswered⟩

/-! ## All calls together -/

/-- The threads of the handler: each serves one request. -/
def Serves (env : OwnerEnv F E W) (runningForeign : Bool) (t : HandlerThread W Unit) : Prop :=
  ∃ val, t = handlePostRequest env runningForeign val

theorem serves_safe (hlaw : env.Lawful) (hP : ∀ key val, (env.dispatch key val).Returns (P val))
    {runningForeign : Bool} (t : HandlerThread W Unit) (ht : Serves env runningForeign t)
    (s : HandlerState W) (_ : Settled held s) : SafeCall env P held (fun _ _ => True) t s := by
  obtain ⟨val, rfl⟩ := ht
  exact handlePostRequest_safe hlaw hP runningForeign val s

/-- Every section taken in any interleaving is one it should be. -/
theorem honest_of_take (hlaw : env.Lawful) (hP : ∀ key val, (env.dispatch key val).Returns (P val))
    {runningForeign : Bool} {s₀ s : HandlerState W} (hs₀ : Settled held s₀) {β : Type}
    {pre post : List (HandlerThread W Unit)} {label : Section} {body : HandlerM W β}
    {next : β → HandlerThread W Unit}
    (h : Reachable (Serves env runningForeign) (Section.Allowed held) s₀
      ⟨pre ++ .sec label body next :: post, s⟩) (hallow : label.Allowed held s) :
    Honest env P held s label :=
  (guarantee_of_take (serves_safe hlaw hP) (fun _ _ _ _ hg => hg.2) hs₀ h hallow).1

omit [CommRing F] [AddCommGroup E] [Module F E] [DecidableEq F] in
theorem new_settled (mask : Option SecretKey) (draws : Nat) (world : W) :
    Settled none (HandlerState.new mask draws world) := by
  refine ⟨⟨?_, ?_⟩, ?_⟩
  · rintro key ⟨⟩
  · rintro key ⟨⟩
  · rintro key ⟨⟩

omit [CommRing F] [AddCommGroup E] [Module F E] [DecidableEq F] in
theorem allowed_none : (fun (_ : Section) (_ : HandlerState W) => True) = Section.Allowed none := by
  funext label s
  cases label <;> simp [Section.Allowed]

theorem settled_of_reachable (hlaw : env.Lawful) {runningForeign : Bool} {mask : Option SecretKey}
    {draws : Nat} {world : W} {c : Config Section (HandlerState W) Panic}
    (h : Reachable (Serves env runningForeign) (fun _ _ => True) (.new mask draws world) c) :
    Settled none c.state := by
  rw [allowed_none] at h
  have hP : ∀ key val, (env.dispatch key val).Returns fun _ => True := fun key val =>
    Thread.returns_of_forall (fun _ => trivial) _
  exact (reachable_safe (serves_safe (P := fun _ _ => True) hlaw hP) (fun _ _ _ _ hg => hg.2)
    (new_settled mask draws world) h).1

/-- Whatever requests are served and however their sections interleave, no lock finds the key
gone, a request runs only when it is a plain `init_secure_api` or was opened under a key an earlier
one made, and every other reply is sealed under such a key, empty, or an encryption error. -/
theorem owner_session_guarded (hlaw : env.Lawful) {runningForeign : Bool}
    {mask : Option SecretKey} {draws : Nat} {world : W} {s : HandlerState W} {β : Type}
    {pre post : List (HandlerThread W Unit)} {label : Section} {body : HandlerM W β}
    {next : β → HandlerThread W Unit}
    (h : Reachable (Serves env runningForeign) (fun _ _ => True) (.new mask draws world)
      ⟨pre ++ .sec label body next :: post, s⟩) :
    label ≠ .panic ∧
    (∀ val sealedUnder, label = .handleRequest val sealedUnder →
      (sealedUnder = none ∧ isInitSecureApi val = true) ∨
        ∃ key ∈ s.negotiated, sealedUnder = some key) ∧
    ∀ val reply, label = .respond val reply → isInitSecureApi val = false → Protected env s reply := by
  have hP : ∀ key val, (env.dispatch key val).Returns fun _ => True := fun key val =>
    Thread.returns_of_forall (fun _ => trivial) _
  rw [allowed_none] at h
  have hallow : label.Allowed none s := by
    rw [← allowed_none]
    trivial
  have hhonest := honest_of_take (P := fun _ _ => True) hlaw hP (new_settled mask draws world) h hallow
  refine ⟨?_, ?_, ?_⟩
  · rintro rfl
    exact hhonest
  · rintro val sealedUnder rfl
    exact hhonest
  · rintro val reply rfl hval
    exact (hhonest hval).1

/-- Both ends of an exchange compute the same key. -/
theorem sharedSecret_comm {a b : SecretKey} {k key : SecretKey}
    (hb : sharedSecret env b (env.curve.publicKey a) = some k)
    (ha : sharedSecret env a (env.curve.publicKey b) = some key) : k = key := by
  unfold sharedSecret Curve.publicKey at ha hb
  by_cases ha0 : env.curve.scalar a = 0
  · rw [if_pos ha0] at ha
    cases ha
  by_cases hb0 : env.curve.scalar b = 0
  · rw [if_pos hb0] at hb
    cases hb
  rw [if_neg ha0] at ha
  rw [if_neg hb0, smul_comm] at hb
  rw [ha] at hb
  exact (Option.some.inj hb).symm

omit [CommRing F] [AddCommGroup E] [Module F E] [DecidableEq F] in
theorem initReply_ok_inj (hlaw : Function.Injective env.pubkeyHex) {val : JsonValue} {r : Except String E} {pubkey : E}
    (h : initReply env val r = initReply env val (.ok pubkey)) : r = .ok pubkey := by
  cases r with
  | ok p =>
      simp only [initReply, JsonValue.object.injEq, List.cons.injEq, Prod.mk.injEq, JsonValue.string.injEq,
        true_and, and_true] at h
      rw [hlaw h]
  | error e => simp [initReply] at h

omit [CommRing F] [AddCommGroup E] [Module F E] [DecidableEq F] in
theorem checkErrorResponse_initReply (val : JsonValue) (pubkey : E) :
    checkErrorResponse env (initReply env val (.ok pubkey)) = (false, initReply env val (.ok pubkey)) := by
  simp [checkErrorResponse, initReply, JsonValue.index, JsonValue.get, List.lookup_cons, errorMessage]

/-- A client and the handler agree on the key after `init_secure_api`. -/
theorem init_agrees (hlaw : env.Lawful) {runningForeign : Bool} {val : JsonValue} {secKey : SecretKey}
    {pubkey : E} {s s₀ : HandlerState W} {key : SecretKey} (hinit : isInitSecureApi val = true)
    (hcall : env.initCall val = .run (env.curve.publicKey secKey) false)
    (hrun : (callApi env runningForeign val).run s = (.ok (initReply env val (.ok pubkey)), s₀))
    (hkey : sharedSecret env secKey pubkey = some key) (hs : Settled none s) :
    Settled (some key) s₀ := by
  have hopen : ¬ (isOpenWallet val = true ∧ runningForeign = true) := by
    rintro ⟨h, -⟩
    simp only [isOpenWallet, isInitSecureApi, decide_eq_true_eq] at h hinit
    rw [hinit] at h
    exact absurd h (by decide)
  unfold callApi at hrun
  rw [if_pos hinit] at hrun
  unfold answer handleRequest at hrun
  simp only [if_pos hinit, hcall, Thread.bind_eq, Thread.run_andThen] at hrun
  obtain ⟨r, m, hreq, hrest⟩ := Eff.bind_eq_ok.mp hrun
  obtain ⟨r', m', hmethod, hreply⟩ := Eff.bind_eq_ok.mp hreq
  rw [Thread.run_atomic] at hmethod
  obtain ⟨hr, rfl⟩ := Eff.ofExcept_eq_ok.mp hreply
  cases hr
  simp only [Bool.false_eq_true, if_false, Thread.runIf, if_neg hopen, protect, Thread.pure_eq,
    Thread.andThen, if_pos hinit] at hrest
  rw [Thread.run_andThen, Thread.run_atomic] at hrest
  obtain ⟨u, m', hstore, hlast⟩ := Eff.bind_eq_ok.mp hrest
  obtain ⟨hreply, rfl⟩ := Eff.ofExcept_eq_ok.mp hlast
  have hr' := initReply_ok_inj hlaw.pubkeyHex (Except.ok.inj hreply)
  subst hr'
  -- the method made the key, and the handler takes it from the API
  rcases initSecureApi_cases env (env.curve.publicKey secKey) s with ⟨e, he, -⟩ | ⟨k, hk, hmade⟩
  · rw [hmethod] at he
    cases he
  · have hsame := hmade.symm.trans hmethod
    simp only [Prod.mk.injEq, Except.ok.injEq] at hsame
    obtain ⟨rfl, rfl⟩ := hsame
    rw [sharedSecret_comm hk hkey] at hstore hmade
    have hsettled := (initSecureApi_settled env (env.curve.publicKey secKey) hs).2
    rw [hmade] at hsettled
    have hok : (okString (checkErrorResponse env (initReply env val
        (.ok (env.curve.publicKey (env.secretKey s.draws))))).2).isSome = true := by
      rw [checkErrorResponse_initReply]
      simp [okString, initReply, JsonValue.index, JsonValue.get, JsonValue.asStr, List.lookup_cons]
    rw [updateOwnerApiSharedKey, Eff.runIf, if_pos hok] at hstore
    cases hstore
    exact ⟨⟨hsettled.1.2, hsettled.1.2⟩, fun _ h => h ▸ rfl⟩

/-- A client that negotiated a key while the handler served nobody else holds the key the handler
stored, and reads in the reply to each of its requests what the framework answered it, whatever is
served at the same time, until another key is stored. -/
theorem session_exchange (hlaw : env.Lawful) (hP : ∀ key val, (env.dispatch key val).Returns (P val))
    {runningForeign : Bool} {mask : Option SecretKey} {draws : Nat} {world : W} {s s₀ s₁ : HandlerState W}
    (hs : Reachable (Serves env runningForeign) (fun _ _ => True) (.new mask draws world) ⟨[], s⟩)
    {val₀ : JsonValue} {secKey key : SecretKey} {pubkey : E} (hinit : isInitSecureApi val₀ = true)
    (hcall : env.initCall val₀ = .run (env.curve.publicKey secKey) false)
    (hrun : (callApi env runningForeign val₀).run s = (.ok (initReply env val₀ (.ok pubkey)), s₀))
    (hkey : sharedSecret env secKey pubkey = some key) {nonce : Bytes} {id : JsonId}
    {v reply : JsonValue} {req : EncryptedRequest} (hnonce : nonce.length = 12)
    (hreq : EncryptedRequest.fromJson env.sealing nonce id v key = .ok req)
    (hv : env.sealing.Reads v) (hplain : isInitSecureApi v = false)
    (hreads : ∀ r, P v (some r) → env.sealing.Reads (checkErrorResponse env r).2)
    {β : Type} {pre post : List (HandlerThread W Unit)} {body : HandlerM W β}
    {next : β → HandlerThread W Unit}
    (h : Reachable (Serves env runningForeign) (Section.Allowed (some key)) s₀
      ⟨pre ++ .sec (.respond req.asJsonValue reply) body next :: post, s₁⟩) :
    s₀.sharedKey = some key ∧
    ((P v none ∧ reply = .array []) ∨ ∃ r, P v (some r) ∧
      ((EncryptedResponse.fromValue reply).bind (·.decrypt env.sealing key) =
          some (.ok (checkErrorResponse env r).2) ∨
        reply = encryptionErrorResponse 1 (-32003) "EncryptionError: EncryptedBody: encryption failed")) := by
  have hheld := init_agrees hlaw hinit hcall hrun hkey (settled_of_reachable hlaw hs)
  obtain ⟨params, hparams, hmade⟩ := except_bind_eq_ok.mp hreq
  cases hmade
  have hsealed : isInitSecureApi (EncryptedRequest.asJsonValue ⟨"2.0", "encrypted_request_v3", id, params⟩)
      = false := by
    simp [isInitSecureApi, EncryptedRequest.asJsonValue, JsonValue.index, JsonValue.get, JsonValue.asStr,
      List.lookup_cons]
  have hopened : decryptRequest env key (EncryptedRequest.asJsonValue
      ⟨"2.0", "encrypted_request_v3", id, params⟩) = .ok (id, v) := by
    have hdec := EncryptedBody.decrypt_fromJson hlaw.sealing hnonce hv hparams
    simp [decryptRequest, EncryptedRequest.decrypt, hdec]
  obtain ⟨-, hanswered⟩ := honest_of_take hlaw hP hheld h trivial hsealed
  refine ⟨hheld.2 key rfl, ?_⟩
  rcases hanswered key rfl id v hopened hplain with hnone | ⟨r, i, id', hr, hsealing⟩
  · exact .inl hnone
  · refine .inr ⟨r, hr, ?_⟩
    unfold encryptResponse at hsealing
    cases hres : EncryptedResponse.fromJson env.sealing (env.nonce i) id' (checkErrorResponse env r).2 key with
    | ok encRes =>
        simp only [hres, Except.ok.injEq, reduceCtorEq, or_false] at hsealing
        subst hsealing
        exact .inl (EncryptedResponse.decrypt_fromJson hlaw.sealing (hlaw.nonce i) (hreads r hr) hres)
    | error e =>
        simp only [hres, Except.error.injEq, reduceCtorEq, false_or] at hsealing
        rw [← hsealing, EncryptedResponse.fromJson_error hres]
        exact .inr rfl

end Handler

/-! ## A session -/

namespace SampleSession

def accounts : JsonValue := .object [("method", .string "accounts"), ("id", .number 1)]

def noAccounts : JsonValue := .object [("id", .number 1), ("result", .object [("Ok", .array [])])]

def initRequest : JsonValue := .object [("method", .string "init_secure_api"), ("id", .number 0),
  ("params", .object [("ecdh_pubkey", .string "2")])]

/-- A call of `init_secure_api` without a key. -/
def keylessRequest : JsonValue := .object [("method", .string "init_secure_api"), ("id", .number 7)]

def invalidParams : JsonValue := .object [("id", .number 7), ("error", .string "InvalidParams")]

/-- Text as bytes one character each. -/
def latin (bs : Bytes) : String := String.ofList (bs.map fun b => Char.ofNat b.toNat)

def unlatin (s : String) : Option Bytes := some (s.toList.map fun c => UInt8.ofNat c.toNat)

theorem unlatin_latin (bs : Bytes) : unlatin (latin bs) = some bs := by
  have hchar : ∀ n < 256, (Char.ofNat n).toNat = n := by decide +kernel
  have hbyte : ∀ b : UInt8, UInt8.ofNat (Char.ofNat b.toNat).toNat = b := fun b => by
    rw [hchar b.toNat b.toNat_lt, UInt8.ofNat_toNat]
  simp [unlatin, latin, Function.comp_def, hbyte]

def tag (key : SecretKey) : Bytes := List.replicate 16 (UInt8.ofNat key.toNat)

/-- A cipher that only authenticates, over the texts of the one request and the one reply. -/
def sealing : Sealing where
  toString v := if (v.index "method").asStr = some "accounts" then "request" else "reply"
  fromStr s := if s = "request" then some accounts else if s = "reply" then some noAccounts else none
  fromValueError _ := "expected an encrypted request"
  sealInPlaceAppendTag key _ msg := some (msg ++ tag key)
  openInPlace key _ sealed := if sealed.drop (sealed.length - 16) = tag key then some sealed else none
  base64Encode := latin
  base64Decode := unlatin
  toHex := latin
  fromHex := unlatin

theorem sealing_lawful : sealing.Lawful where
  open_seal := by
    intro key nonce msg sealed h
    cases h
    have htag : (tag key).length = 16 := List.length_replicate
    refine ⟨tag key, htag, ?_⟩
    show (if (msg ++ tag key).drop ((msg ++ tag key).length - 16) = tag key then some (msg ++ tag key)
      else none) = some (msg ++ tag key)
    rw [List.length_append, htag, Nat.add_sub_cancel, List.drop_left, if_pos rfl]
  base64 := unlatin_latin
  hex := unlatin_latin

/-- An exchange over a small group, with a framework that answers every request alike. -/
def env : OwnerEnv (ZMod 7) (ZMod 7) Unit where
  curve := {
    G := 1
    H := 1
    scalar := fun k => (k.toNat : ZMod 7)
    challenge := fun _ _ _ => 1
    dalekPublicKey := fun k => k.toNat
    dalekSign := fun k m => k.toNat + m.amount
    dalekVerify := fun p m s => s = p + m.amount }
  sealing := sealing
  secretKey i := BitVec.ofNat 256 (i + 3)
  nonce i := List.replicate 12 (UInt8.ofNat i)
  xCoordKey p := some (BitVec.ofNat 256 p.val)
  pubkeyHex p := String.singleton (Nat.digitChar p.val)
  secretKeyFromSlice _ := none
  initCall val :=
    if ((val.index "params").index "ecdh_pubkey").asStr = some "2" then .run 2 false
    else .invalid invalidParams
  dispatch _ _ := .ret (.ok (some noAccounts))
  hashOrder := id

theorem env_lawful : env.Lawful where
  dispatch _ _ := trivial
  invalid := by
    intro val reply h
    by_cases hkey : ((val.index "params").index "ecdh_pubkey").asStr = some "2"
    · rw [show env.initCall val = .run 2 false from if_pos hkey] at h
      cases h
    · rw [show env.initCall val = .invalid invalidParams from if_neg hkey] at h
      cases h
      rfl
  sealing := sealing_lawful
  nonce _ := List.length_replicate
  pubkeyHex := by decide +kernel

def request : EncryptedRequest :=
  ⟨"2.0", "encrypted_request_v3", .IntId 5,
    ⟨latin (List.replicate 12 9), latin (utf8Bytes "request" ++ tag 6)⟩⟩

def response : EncryptedResponse :=
  ⟨"2.0", .IntId 5, [("Ok", ⟨latin (List.replicate 12 1), latin (utf8Bytes "reply" ++ tag 6)⟩)]⟩

/-- One client negotiates a key and asks for the accounts, up to the reply. -/
def pool : Config Section (HandlerState Unit) Panic :=
  Config.follow ⟨[handlePostRequest env false initRequest, handlePostRequest env false request.asJsonValue],
    .new none 0 ()⟩ [(0, 2), (1, 3)]

theorem pool_reachable :
    Reachable (Serves env false) (fun _ _ => True) (.new none 0 ()) pool := by
  refine reachable_follow (reachable_pool fun t ht => ?_)
    (Config.allows_of_forall (fun _ _ => trivial) _ _)
  simp only [List.mem_cons, List.not_mem_nil, or_false] at ht
  rcases ht with rfl | rfl
  · exact ⟨initRequest, rfl⟩
  · exact ⟨request.asJsonValue, rfl⟩

theorem owner_session_guarded_sample : Protected env pool.state response.asJsonValue := by
  have hreach : Reachable (Serves env false) (fun _ _ => True) (.new none 0 ())
      ⟨[.sec (.respond initRequest (initReply env initRequest (.ok 3))) (pure ()) fun _ => .ret (.ok ())] ++
        .sec (.respond request.asJsonValue response.asJsonValue) (pure ()) (fun _ => .ret (.ok ())) :: [],
        pool.state⟩ := pool_reachable
  exact (owner_session_guarded env_lawful hreach).2.2 _ _ rfl (by decide +kernel)

/-- Where the handler stands after the negotiation. -/
def negotiated : HandlerState Unit := ((callApi env false initRequest).run (.new none 0 ())).2

/-- The request served from there up to its reply, while another client is refused a key. -/
def served : Config Section (HandlerState Unit) Panic :=
  Config.follow ⟨[handlePostRequest env false request.asJsonValue,
    handlePostRequest env false keylessRequest], negotiated⟩ [(0, 2), (1, 1), (0, 1)]

theorem served_reachable :
    Reachable (Serves env false) (Section.Allowed (some 6)) negotiated served := by
  refine reachable_follow (reachable_pool fun t ht => ?_) ?_
  · simp only [List.mem_cons, List.not_mem_nil, or_false] at ht
    rcases ht with rfl | rfl
    · exact ⟨request.asJsonValue, rfl⟩
    · exact ⟨keylessRequest, rfl⟩
  · refine ⟨?_, ?_, ?_, trivial⟩
    · intro t ht
      cases ht
      exact ⟨trivial, trivial, trivial⟩
    · intro t ht
      cases ht
      refine ⟨fun hok => ?_, trivial⟩
      cases hok
    · intro t ht
      cases ht
      exact ⟨trivial, trivial⟩

theorem session_exchange_sample :
    negotiated.sharedKey = some 6 ∧
    ((EncryptedResponse.fromValue response.asJsonValue).bind (·.decrypt env.sealing 6) =
        some (.ok (checkErrorResponse env noAccounts).2) ∨
      response.asJsonValue =
        encryptionErrorResponse 1 (-32003) "EncryptionError: EncryptedBody: encryption failed") := by
  have hreach : Reachable (Serves env false) (Section.Allowed (some 6)) negotiated
      ⟨[] ++ .sec (.respond request.asJsonValue response.asJsonValue) (pure ()) (fun _ => .ret (.ok ())) ::
        [.sec (.respond keylessRequest invalidParams) (pure ()) fun _ => .ret (.ok ())], served.state⟩ := served_reachable
  have hP : ∀ key val, (env.dispatch key val).Returns fun r => r = some noAccounts := fun _ _ => rfl
  have hreads : ∀ r, some r = some noAccounts → env.sealing.Reads (checkErrorResponse env r).2 := by
    rintro _ ⟨⟩
    rfl
  have hnew : Reachable (Serves env false) (fun _ _ => True) (.new none 0 ()) ⟨[], .new none 0 ()⟩ := .refl
  have hrequest : EncryptedRequest.fromJson env.sealing (List.replicate 12 9) (.IntId 5) accounts 6
      = .ok request := rfl
  have hinit : isInitSecureApi initRequest = true := by decide +kernel
  have hcall : env.initCall initRequest = .run (env.curve.publicKey 2) false := rfl
  have hrun : (callApi env false initRequest).run (.new none 0 ())
      = (.ok (initReply env initRequest (.ok 3)), negotiated) := rfl
  have hkey : sharedSecret env 2 3 = some 6 := rfl
  have hread : env.sealing.Reads accounts := rfl
  obtain ⟨hheld, ⟨h, -⟩ | ⟨_, ⟨⟩, h⟩⟩ := session_exchange (P := fun _ r => r = some noAccounts) env_lawful hP
    hnew hinit hcall hrun hkey List.length_replicate hrequest hread (by decide +kernel) hreads hreach
  · cases h
  · exact ⟨hheld, h⟩

end SampleSession

end GrinWallet.OwnerV3
