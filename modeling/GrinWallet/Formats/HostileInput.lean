import GrinWallet.Formats.BinarySlatepack
import GrinWallet.Model.SampleSlatepack

/-! # Decoding hostile input

The readers of the slatepack formats count down from an announced length and
stop the program when the addresses they read take more. Everything else that
can be wrong with the input is an error. What the addresses take is computed
from the input alone, and compared with what was announced.
-/

namespace GrinWallet

open Effect Wire

variable {F E : Type}

/-- The error of a program that stopped. -/
def SerError.IsPanic (e : SerError) : Prop := ∃ reason, e = .Panic reason

@[simp] theorem SerError.isPanic_panic (reason : String) : IsPanic (.Panic reason) := ⟨reason, rfl⟩

@[simp] theorem SerError.not_isPanic_ioErr : ¬ IsPanic .IOErr := by
  rintro ⟨_, h⟩
  cases h

@[simp] theorem SerError.not_isPanic_corruptedData : ¬ IsPanic .CorruptedData := by
  rintro ⟨_, h⟩
  cases h

@[simp] theorem SerError.not_isPanic_tooLargeReadErr : ¬ IsPanic .TooLargeReadErr := by
  rintro ⟨_, h⟩
  cases h

@[simp] theorem SerError.not_isPanic_unexpectedData (expected received : List Nat) :
    ¬ IsPanic (.UnexpectedData expected received) := by
  rintro ⟨_, h⟩
  cases h

@[simp] theorem SerError.not_isPanic_unsupportedProtocolVersion :
    ¬ IsPanic .UnsupportedProtocolVersion := by
  rintro ⟨_, h⟩
  cases h

@[simp] theorem SerError.not_isPanic_countError : ¬ IsPanic .CountError := by
  rintro ⟨_, h⟩
  cases h

/-- The program stops on an input. -/
def Panics {α : Type} (r : Reader SerError α) (s : Bytes) : Prop := Eff.FailsWith SerError.IsPanic r s

/-! ## Readers that only fail with errors -/

section Calm

theorem not_panics_throw {α : Type} {e : SerError} (h : ¬ e.IsPanic) (s : Bytes) :
    ¬ Panics (throw e : Reader SerError α) s := by
  rw [Panics, Eff.failsWith_throw]
  exact h

theorem not_panics_throw_bind {α β : Type} {e : SerError} (h : ¬ e.IsPanic)
    (f : α → Reader SerError β) (s : Bytes) :
    ¬ Panics ((throw e : Reader SerError α) >>= f) s := by
  have hrun : ((throw e : Reader SerError α) >>= f) s = (.error e, s) := rfl
  rw [Panics, Eff.failsWith_of_error hrun]
  exact h

theorem not_panics_word (k : Nat) (s : Bytes) : ¬ Panics (word SerError.IOErr k).read s :=
  not_failsWith_word SerError.not_isPanic_ioErr k s

theorem not_panics_readFixedBytes (C : Codecs F E) (n : Nat) (s : Bytes) :
    ¬ Panics (C.readFixedBytes n) s := by
  unfold Codecs.readFixedBytes
  split_ifs
  · exact not_panics_throw (by simp) s
  · exact not_failsWith_takeBytes SerError.not_isPanic_ioErr n s

variable {N : SlatepackEnv F E}

theorem SlatepackAddress.not_panics_read (s : Bytes) : ¬ Panics (read N) s := by
  refine Eff.not_failsWith_bind (not_panics_word 1) (fun len => ?_) s
  refine Eff.not_failsWith_bind (not_panics_readFixedBytes _ _) fun encoded => ?_
  intro s'
  cases tryFrom N encoded with
  | ok a => exact Eff.not_failsWith_pure a
  | error e => exact not_panics_throw (by simp) s'

theorem SlatepackVersion.not_panics_read (s : Bytes) : ¬ Panics read s := by
  refine Eff.not_failsWith_bind (not_panics_word 1) (fun major => ?_) s
  refine Eff.not_failsWith_bind (not_panics_word 1) fun minor => ?_
  exact fun _ => Eff.not_failsWith_pure _

theorem SlatepackBin.not_panics_readHeader (s : Bytes) : ¬ Panics readHeader s := by
  refine Eff.not_failsWith_bind SlatepackVersion.not_panics_read (fun version => ?_) s
  refine Eff.not_failsWith_bind (not_panics_word 1) fun mode => ?_
  intro s'
  split_ifs
  · exact not_panics_throw_bind (by simp) _ s'
  · refine Eff.not_failsWith_bind (not_panics_word 2) (fun flags => ?_) s'
    refine Eff.not_failsWith_bind (not_panics_word 4) fun n => ?_
    exact fun _ => Eff.not_failsWith_pure _

end Calm

/-! ## What the addresses take -/

section Charges

variable {N : SlatepackEnv F E}

/-- The length of the address that can be read, and of what is counted behind it. -/
def SlatepackAddress.charge (N : SlatepackEnv F E) (behind : Bytes → Nat) (s : Bytes) : Nat :=
  match read N s with
  | (.ok a, s') =>
      match a.encodedLen N with
      | .ok len => len % 2 ^ 32 + behind s'
      | .error _ => 0
  | (.error _, _) => 0

/-- A reader that counts down from an announced length: it stops the program
exactly when less is announced than what it counts, and else leaves the rest. -/
structure Charges {α : Type} (f : Nat → Reader SerError (α × Nat)) (cost : Bytes → Nat) : Prop where
  panics : ∀ n s, Panics (f n) s ↔ n < cost s
  left : ∀ n s a n' s', f n s = (.ok (a, n'), s') → n' + cost s = n

variable {α β : Type}

theorem Charges.pure (a : α) : Charges (fun n => Pure.pure (a, n)) fun _ => 0 where
  panics n s := iff_of_false (Eff.not_failsWith_pure _) (Nat.not_lt_zero n)
  left n s a n' s' h := by
    cases h
    rfl

/-- Nothing is counted behind a reader that ends. -/
theorem Charges.map {f : Nat → Reader SerError (α × Nat)} {cost : Bytes → Nat}
    (h : Charges f cost) (g : α → β) :
    Charges (fun n => f n >>= fun p => Pure.pure (g p.1, p.2)) cost where
  panics n s := (Eff.failsWith_bind_of_forall_not fun _ _ => Eff.not_failsWith_pure _).trans
    (h.panics n s)
  left n s b n' s' hb := by
    obtain ⟨⟨a, m⟩, t, ha, hp⟩ := Eff.bind_eq_ok.mp hb
    cases hp
    exact h.left n s a _ _ ha

theorem subU32_of_le {n len : Nat} (h : len ≤ n) : subU32 n len = .ok (n - len) := if_pos h

theorem subU32_of_lt {n len : Nat} (h : n < len) :
    subU32 n len = .error (.Panic "attempt to subtract with overflow") :=
  if_neg (by omega)

/-- Counting down and reading on, behind what was counted. -/
theorem Charges.subU32 {g : Nat → Reader SerError (α × Nat)} {behind : Bytes → Nat}
    (h : Charges g behind) (len : Nat) :
    Charges (fun n => Eff.ofExcept (subU32 n len) >>= g) fun s => len + behind s where
  panics n s := by
    by_cases hlen : len ≤ n
    · rw [subU32_of_le hlen]
      exact (h.panics (n - len) s).trans (by omega)
    · have hrun : (Eff.ofExcept (GrinWallet.subU32 n len) >>= g) s =
          (.error (.Panic "attempt to subtract with overflow"), s) := by
        rw [subU32_of_lt (by omega)]
        rfl
      rw [Panics, Eff.failsWith_of_error hrun]
      exact iff_of_true (by simp) (by omega)
  left n s a n' s' ha := by
    by_cases hlen : len ≤ n
    · rw [subU32_of_le hlen] at ha
      have hleft := h.left (n - len) s a n' s' ha
      omega
    · rw [subU32_of_lt (by omega)] at ha
      cases ha

/-- An address cannot be read, or it is counted and what follows it is read. -/
theorem readCounted_cases (N : SlatepackEnv F E) (behind : Bytes → Nat) (s : Bytes) :
    (SlatepackAddress.charge N behind s = 0 ∧
        ∀ n, ∃ e s', ¬ SerError.IsPanic e ∧ readCounted N n s = (.error e, s')) ∨
      ∃ a len s', SlatepackAddress.charge N behind s = len + behind s' ∧
        ∀ n (f : SlatepackAddress × Nat → Reader SerError α), (readCounted N n >>= f) s =
          (Eff.ofExcept (subU32 n len) >>= fun n' => f (a, n')) s' := by
  unfold SlatepackAddress.charge readCounted
  cases hr : SlatepackAddress.read N s with
  | mk r s' =>
      cases r with
      | error e =>
          have hcalm := SlatepackAddress.not_panics_read (N := N) s
          rw [Panics, Eff.failsWith_of_error hr] at hcalm
          exact .inl ⟨rfl, fun n => ⟨e, s', hcalm, Eff.run_bind_error hr⟩⟩
      | ok a =>
          cases hl : a.encodedLen N with
          | error e =>
              refine .inl ⟨by simp [hl], fun n => ⟨.CorruptedData, s', by simp, ?_⟩⟩
              rw [Eff.run_bind_ok hr, hl]
              rfl
          | ok len =>
              refine .inr ⟨a, len % 2 ^ 32, s', by simp [hl], fun n f => ?_⟩
              rw [bind_assoc, Eff.run_bind_ok hr, hl]
              show ((Eff.ofExcept (subU32 n (len % 2 ^ 32)) >>= fun n' => pure (a, n')) >>= f) s' = _
              rw [bind_assoc]
              simp only [pure_bind]

/-- Reading an address in front of what is counted. -/
theorem Charges.counted {g : SlatepackAddress → Nat → Reader SerError (α × Nat)}
    {behind : Bytes → Nat} (h : ∀ a, Charges (g a) behind) :
    Charges (fun n => readCounted N n >>= fun p => g p.1 p.2)
      (SlatepackAddress.charge N behind) where
  panics n s := by
    rcases readCounted_cases N behind s with ⟨hcost, herr⟩ | ⟨a, len, s', hcost, hrun⟩
    · obtain ⟨e, s', hcalm, hrun⟩ := herr n
      rw [hcost, Panics, Eff.failsWith_of_error (Eff.run_bind_error hrun)]
      exact iff_of_false hcalm (Nat.not_lt_zero n)
    · rw [hcost, ← ((h a).subU32 len).panics n s']
      unfold Panics Eff.FailsWith
      rw [hrun]
  left n s b n' t hb := by
    rcases readCounted_cases N behind s with ⟨-, herr⟩ | ⟨a, len, s', hcost, hrun⟩
    · obtain ⟨e, s', -, hrun⟩ := herr n
      rw [Eff.run_bind_error hrun] at hb
      cases hb
    · rw [hrun] at hb
      rw [hcost]
      exact ((h a).subU32 len).left n s' b n' t hb

/-- What is counted behind an item that can be read. -/
def chargeBehind (r : Reader SerError β) (behind : β → Bytes → Nat) (s : Bytes) : Nat :=
  match r s with
  | (.ok b, s') => behind b s'
  | (.error _, _) => 0

/-- Reading something that is not counted in front of what is. -/
theorem Charges.behind_read {r : Reader SerError β} (hr : ∀ s, ¬ Panics r s)
    {g : β → Nat → Reader SerError (α × Nat)} {behind : β → Bytes → Nat}
    (h : ∀ b, Charges (g b) (behind b)) :
    Charges (fun n => r >>= fun b => g b n) (chargeBehind r behind) where
  panics n s := by
    unfold chargeBehind
    rw [Panics, Eff.failsWith_bind_of_not (hr s)]
    cases hrun : r s with
    | mk x s' =>
        cases x with
        | error e => simp
        | ok b =>
            constructor
            · rintro ⟨_, _, heq, hp⟩
              cases heq
              exact ((h b).panics n s').mp hp
            · intro hlt
              exact ⟨b, s', rfl, ((h b).panics n s').mpr hlt⟩
  left n s a n' t ha := by
    obtain ⟨b, s', hrun, hb⟩ := Eff.bind_eq_ok.mp ha
    unfold chargeBehind
    rw [hrun]
    exact (h b).left n s' a n' t hb

end Charges

/-! ## The binary slatepack -/

namespace SlatepackBin

variable {N : SlatepackEnv F E} {α : Type}

/-- What the sender takes, and what is counted behind it. -/
def senderCharge (N : SlatepackEnv F E) (flags : Nat) (behind : Bytes → Nat) (s : Bytes) : Nat :=
  if flags &&& 0x01 > 0 then SlatepackAddress.charge N behind s else behind s

theorem charges_sender (flags : Nat) {behind : Bytes → Nat}
    {g : Option SlatepackAddress → Nat → Reader SerError (α × Nat)}
    (h : ∀ sender, Charges (g sender) behind) :
    Charges (fun n => readSender N flags n >>= fun p => g p.1 p.2)
      (senderCharge N flags behind) := by
  unfold readSender senderCharge
  by_cases hflags : flags &&& 0x01 > 0
  · simp only [if_pos hflags, bind_assoc, pure_bind]
    exact Charges.counted fun a => h (some a)
  · simp only [if_neg hflags, pure_bind]
    exact h none

/-- The fields in front of the payload, the bytes announced for them and those
left when they are read. -/
def readFields (N : SlatepackEnv F E) :
    Reader SerError ((SlatepackVersion × Nat × Option SlatepackAddress) × Nat × Nat) := do
  let (slatepack, mode, optFlags, announced) ← readHeader
  let (sender, left) ← readSender N optFlags announced
  return ((slatepack, mode, sender), announced, left)

/-- Unknown fields are skipped behind the known ones, and then comes the payload. -/
theorem read_eq : read N = (do
    let p ← readFields N
    skipBytes .IOErr p.2.2
    let len ← Ser.u64.read
    let payload ← N.readFixedBytes len
    return {
      slatepack := p.1.1
      mode := p.1.2.1
      sender := p.1.2.2
      encryptedMeta := .empty
      payload }) := by
  unfold read readFields
  simp only [bind_assoc, pure_bind]

/-- What is announced covers the sender that can be read. -/
def Covers (N : SlatepackEnv F E) (s : Bytes) : Prop :=
  ∀ version mode flags announced s', readHeader s = (.ok (version, mode, flags, announced), s') →
    senderCharge N flags (fun _ => 0) s' ≤ announced

theorem charges_readSender (flags : Nat) :
    Charges (readSender N flags) (senderCharge N flags fun _ => 0) := by
  have h := charges_sender (N := N) flags fun sender => Charges.pure sender
  simpa only [Prod.mk.eta, bind_pure] using h

/-- What is left when the fields are read is no more than what was announced. -/
theorem readFields_left : Eff.Yields (readFields N) fun p => p.2.2 ≤ p.2.1 := by
  refine Eff.Yields.bind_of_forall fun header => ?_
  obtain ⟨version, mode, flags, announced⟩ := header
  intro s p s' h
  obtain ⟨⟨sender, left⟩, _, hsender, hp⟩ := Eff.bind_eq_ok.mp h
  cases hp
  have hleft := (charges_readSender flags).left announced s sender left _ hsender
  show left ≤ announced
  omega

theorem panics_readFields (s : Bytes) : Panics (readFields N) s ↔ ¬ Covers N s := by
  have hheader : Panics (readFields N) s ↔ ∃ header s', readHeader s = (.ok header, s') ∧
      Panics (readSender N header.2.2.1 header.2.2.2) s' := by
    unfold readFields
    rw [Panics, Eff.failsWith_bind_of_not (not_panics_readHeader s)]
    refine exists_congr fun header => exists_congr fun s' => and_congr_right fun _ => ?_
    exact Eff.failsWith_bind_of_forall_not fun _ _ => Eff.not_failsWith_pure _
  rw [hheader]
  unfold Covers
  constructor
  · rintro ⟨⟨version, mode, flags, announced⟩, s', hrun, hp⟩ hcovers
    have hlt := ((charges_readSender flags).panics announced s').mp hp
    have hle := hcovers version mode flags announced s' hrun
    omega
  · intro hnot
    push Not at hnot
    obtain ⟨version, mode, flags, announced, s', hrun, hlt⟩ := hnot
    exact ⟨_, s', hrun, ((charges_readSender flags).panics announced s').mpr hlt⟩

theorem panics_iff (s : Bytes) : Panics (read N) s ↔ ¬ Covers N s := by
  rw [← panics_readFields, read_eq]
  refine Eff.failsWith_bind_of_forall_not fun p => ?_
  refine Eff.not_failsWith_bind (not_failsWith_skipBytes SerError.not_isPanic_ioErr _) fun _ => ?_
  refine Eff.not_failsWith_bind (not_panics_word 8) fun len => ?_
  refine Eff.not_failsWith_bind (not_panics_readFixedBytes N.toCodecs _) fun _ => ?_
  exact fun _ => Eff.not_failsWith_pure _

end SlatepackBin

/-! ## The encrypted metadata -/

namespace SlatepackEncMetadataBin

variable {N : SlatepackEnv F E}

/-- What a number of recipients take. -/
def recipientsCharge (N : SlatepackEnv F E) : Nat → Bytes → Nat
  | 0 => fun _ => 0
  | count + 1 => SlatepackAddress.charge N (recipientsCharge N count)

/-- What the list of the recipients takes, with its count. -/
def listCharge (N : SlatepackEnv F E) (flags : Nat) (s : Bytes) : Nat :=
  if flags &&& 0x02 > 0 then
    chargeBehind Ser.u16.read (fun count s' => 2 + recipientsCharge N count s') s
  else 0

theorem charges_recipients (count : Nat) :
    Charges (readRecipients N count) (recipientsCharge N count) := by
  induction count with
  | zero => exact Charges.pure []
  | succ count ih => exact Charges.counted fun a => ih.map (a :: ·)

theorem charges_list (flags : Nat) : Charges (readList N flags) (listCharge N flags) := by
  unfold readList listCharge
  by_cases hflags : flags &&& 0x02 > 0
  · simp only [if_pos hflags]
    have hlist : ∀ count, Charges (fun n => Eff.ofExcept (subU32 n 2) >>= readRecipients N count)
        fun s => 2 + recipientsCharge N count s :=
      fun count => (charges_recipients count).subU32 2
    exact Charges.behind_read (not_panics_word 2) hlist
  · simp only [if_neg hflags]
    exact Charges.pure []

/-- The fields behind the flags, and the bytes left of those announced. -/
def readBody (N : SlatepackEnv F E) (optFlags announced : Nat) :
    Reader SerError (SlatepackEncMetadata × Nat) := do
  let left ← Eff.ofExcept (subU32 announced 2)
  let (sender, left) ← SlatepackBin.readSender N optFlags left
  let (recipients, left) ← readList N optFlags left
  return ({ sender, recipients }, left)

/-- The metadata, the bytes announced for it and those left when it is read. -/
def readFields (N : SlatepackEnv F E) : Reader SerError (SlatepackEncMetadata × Nat × Nat) := do
  let announced ← Ser.u32.read
  let optFlags ← Ser.u16.read
  let (inner, left) ← readBody N optFlags announced
  return (inner, announced, left)

/-- Unknown data is skipped behind the fields. -/
theorem read_eq : read N = (do
    let p ← readFields N
    skipBytes .IOErr p.2.2
    return p.1) := by
  unfold read readFields readBody
  simp only [bind_assoc, pure_bind]

/-- What the metadata takes: its flags, the sender and the recipients. -/
def bodyCharge (N : SlatepackEnv F E) (flags : Nat) (s : Bytes) : Nat :=
  2 + SlatepackBin.senderCharge N flags (listCharge N flags) s

/-- What is announced covers the fields that can be read. -/
def Covers (N : SlatepackEnv F E) (s : Bytes) : Prop :=
  ∀ announced s' flags s'', Ser.u32.read s = (.ok announced, s') →
    Ser.u16.read s' = (.ok flags, s'') → bodyCharge N flags s'' ≤ announced

theorem charges_body (flags : Nat) : Charges (readBody N flags) (bodyCharge N flags) := by
  have hfields : ∀ sender, Charges
      (fun n => readList N flags n >>= fun q =>
        pure (({ sender, recipients := q.1 } : SlatepackEncMetadata), q.2))
      (listCharge N flags) :=
    fun sender => (charges_list flags).map _
  exact (SlatepackBin.charges_sender flags hfields).subU32 2

theorem readFields_left : Eff.Yields (readFields N) fun p => p.2.2 ≤ p.2.1 := by
  refine Eff.Yields.bind_of_forall fun announced => ?_
  refine Eff.Yields.bind_of_forall fun flags => ?_
  intro s p s' h
  obtain ⟨⟨inner, left⟩, _, hbody, hp⟩ := Eff.bind_eq_ok.mp h
  cases hp
  have hleft := (charges_body flags).left announced s inner left _ hbody
  show left ≤ announced
  omega

theorem panics_readFields (s : Bytes) : Panics (readFields N) s ↔ ¬ Covers N s := by
  have hbody : Panics (readFields N) s ↔ ∃ announced s', Ser.u32.read s = (.ok announced, s') ∧
      ∃ flags s'', Ser.u16.read s' = (.ok flags, s'') ∧ announced < bodyCharge N flags s'' := by
    have hword : ¬ Panics Ser.u32.read s := not_panics_word 4 s
    refine (Eff.failsWith_bind_of_not hword).trans ?_
    refine exists_congr fun announced => exists_congr fun s' => and_congr_right fun _ => ?_
    have hflags : ¬ Panics Ser.u16.read s' := not_panics_word 2 s'
    refine (Eff.failsWith_bind_of_not hflags).trans ?_
    refine exists_congr fun flags => exists_congr fun s'' => and_congr_right fun _ => ?_
    refine (Eff.failsWith_bind_of_forall_not fun _ _ => Eff.not_failsWith_pure _).trans ?_
    exact (charges_body flags).panics announced s''
  rw [hbody]
  unfold Covers
  push Not
  constructor
  · rintro ⟨announced, s', hannounced, flags, s'', hflags, hlt⟩
    exact ⟨announced, s', flags, s'', hannounced, hflags, hlt⟩
  · rintro ⟨announced, s', flags, s'', hannounced, hflags, hlt⟩
    exact ⟨announced, s', hannounced, flags, s'', hflags, hlt⟩

theorem panics_iff (s : Bytes) : Panics (read N) s ↔ ¬ Covers N s := by
  rw [← panics_readFields, read_eq]
  refine Eff.failsWith_bind_of_forall_not fun p => ?_
  refine Eff.not_failsWith_bind (not_failsWith_skipBytes SerError.not_isPanic_ioErr _) fun _ => ?_
  exact fun _ => Eff.not_failsWith_pure _

end SlatepackEncMetadataBin

/-! ## Metadata cut off a payload -/

/-- The text of a 32 byte key under the prefix of the network has one length. -/
structure SlatepackEnv.AddressLength (N : SlatepackEnv F E) (len : Nat) : Prop where
  encode : ∀ data s, data.length = 32 → N.bech32Encode N.slatepackHrp data = some s →
    s.length = len
  decode : ∀ s data, N.bech32Decode s = some (N.slatepackHrp, data) → data.length = 32 →
    s.length = len

section Cut

variable {N : SlatepackEnv F E} {addressLen : Nat}

/-- An address is counted with the bytes it was read from. -/
theorem SlatepackAddress.read_consumes (h : N.AddressLength addressLen) {s s' : Bytes}
    {a : SlatepackAddress} (hread : read N s = (.ok a, s')) {len : Nat}
    (hlen : a.encodedLen N = .ok len) : s.length = len + s'.length := by
  obtain ⟨encoded, hs, htry⟩ := read_eq_ok hread
  obtain ⟨hhrp, data, hdecode, hdata⟩ := tryFrom_eq_ok htry
  have hdecoded := h.decode encoded data hdecode hdata
  unfold encodedLen SlatepackAddress.encoded at hlen
  rw [hhrp] at hlen
  cases hencode : N.bech32Encode N.slatepackHrp (N.dalekPublicKey.toBytes a.pubKey) with
  | none => simp [hencode, bind, Except.bind] at hlen
  | some text =>
      have hlength := h.encode _ text (N.dalekPublicKey.length_toBytes a.pubKey) hencode
      rw [hencode] at hlen
      have hcount : text.length + 1 = len := Except.ok.inj hlen
      omega

theorem SlatepackAddress.charge_le (h : N.AddressLength addressLen) {behind : Bytes → Nat}
    (hbehind : ∀ s, behind s ≤ s.length) (s : Bytes) : charge N behind s ≤ s.length := by
  unfold charge
  cases hr : read N s with
  | mk r s' =>
      cases r with
      | error e => exact Nat.zero_le _
      | ok a =>
          cases hl : a.encodedLen N with
          | error e => simp [hl]
          | ok len =>
              have hs := read_consumes h hr hl
              have hrest := hbehind s'
              have hmod := Nat.mod_le len (2 ^ 32)
              simp only [hl]
              omega

theorem SlatepackEncMetadataBin.recipientsCharge_le (h : N.AddressLength addressLen)
    (count : Nat) : ∀ s : Bytes, recipientsCharge N count s ≤ s.length := by
  induction count with
  | zero => exact fun s => Nat.zero_le _
  | succ count ih => exact SlatepackAddress.charge_le h ih

theorem SlatepackEncMetadataBin.listCharge_le (h : N.AddressLength addressLen) (flags : Nat)
    (s : Bytes) : listCharge N flags s ≤ s.length := by
  unfold listCharge chargeBehind
  split_ifs
  · cases hr : Ser.u16.read s with
    | mk r s' =>
        cases r with
        | error e => exact Nat.zero_le _
        | ok count =>
            obtain ⟨b, hs, hb, -⟩ := word_read_eq_ok hr
            have hrest := recipientsCharge_le h count s'
            have hlen : s.length = 2 + s'.length := by rw [hs, List.length_append, hb]
            show 2 + recipientsCharge N count s' ≤ s.length
            omega
  · exact Nat.zero_le _

theorem SlatepackBin.senderCharge_le (h : N.AddressLength addressLen) (flags : Nat)
    {behind : Bytes → Nat} (hbehind : ∀ s, behind s ≤ s.length) (s : Bytes) :
    senderCharge N flags behind s ≤ s.length := by
  unfold senderCharge
  split_ifs
  · exact SlatepackAddress.charge_le h hbehind s
  · exact hbehind s

/-- Metadata that is given no more bytes than it announces is covered. -/
theorem SlatepackEncMetadataBin.covers_cut (h : N.AddressLength addressLen) {s : Bytes}
    (hs : s.length ≤ 4 + wordValue (s.take 4)) : Covers N s := by
  intro announced s' flags s'' hannounced hflags
  obtain ⟨b, hb, hblen, hvalue⟩ := word_read_eq_ok hannounced
  obtain ⟨c, hc, hclen, -⟩ := word_read_eq_ok hflags
  have hcharge := SlatepackBin.senderCharge_le h flags (listCharge_le h flags) s''
  have htake : s.take 4 = b := by
    rw [hb]
    exact List.take_left' hblen
  have hlen : s.length = 4 + (2 + s''.length) := by
    rw [hb, hc, List.length_append, List.length_append, hblen, hclen]
  rw [htake, ← hvalue] at hs
  unfold bodyCharge
  omega

end Cut

/-! ## Unpacking -/

/-- The call stops the program. -/
def Stops {α : Type} (r : Except Error α) : Prop := ∃ reason, r = .error (.Panic reason)

theorem not_stops_ok {α : Type} (a : α) : ¬ Stops (.ok a : Except Error α) := by
  rintro ⟨_, h⟩
  cases h

theorem stops_bind {α β : Type} {x : Except Error α} {f : α → Except Error β} :
    Stops (x >>= f) ↔ Stops x ∨ ∃ a, x = .ok a ∧ Stops (f a) := by
  cases x with
  | error e => simp [Stops, bind, Except.bind]
  | ok a => simp [Stops, bind, Except.bind]

/-- The libraries the packer calls report what is wrong with their input. -/
structure PackerEnv.Reports (N : PackerEnv F E) : Prop where
  parseJson : ∀ data, ¬ Stops (N.parseJson data)
  ageIdentity : ∀ key, ¬ Stops (N.ageIdentity key)
  ageDecryptor : ∀ file, ¬ Stops (N.ageDecryptor file)
  decrypt : ∀ file decrypt identity, N.ageDecryptor file = .ok (.Recipients decrypt) →
    ¬ Stops (decrypt identity)

namespace SlatepackArmor

variable {N : ArmorEnv F E}

theorem not_stops_checkFrame (frame : Bytes) (reason : String) (framing : Bytes) :
    ¬ Stops (checkFrame frame reason framing) := by
  unfold checkFrame Stops
  split_ifs <;> simp

theorem not_stops_checkHeader (header : Bytes) : ¬ Stops (checkHeader header) :=
  not_stops_checkFrame _ _ _

theorem not_stops_checkFooter (footer : Bytes) : ¬ Stops (checkFooter footer) :=
  not_stops_checkFrame _ _ _

theorem not_stops_errorCheck (code bytes : Bytes) : ¬ Stops (errorCheck N code bytes) := by
  unfold errorCheck Stops
  split_ifs <;> simp

theorem not_stops_decode (armor : Bytes) : ¬ Stops (decode N armor) := by
  unfold decode
  rw [stops_bind, or_iff_right (not_stops_checkHeader _)]
  rintro ⟨_, -, h⟩
  dsimp only at h
  split_ifs at h
  · rcases h with ⟨_, h⟩
    cases h
  · rcases h with ⟨_, h⟩
    cases h
  · rw [stops_bind, or_iff_right (not_stops_checkFooter _)] at h
    obtain ⟨_, -, h⟩ := h
    split at h
    · rcases h with ⟨_, h⟩
      cases h
    · split_ifs at h
      · rcases h with ⟨_, h⟩
        cases h
      · rw [stops_bind, or_iff_right (not_stops_errorCheck _ _)] at h
        obtain ⟨_, -, h⟩ := h
        exact not_stops_ok _ h

end SlatepackArmor

section Packer

variable {N : PackerEnv F E}

/-- What is cut off a decrypted payload is parsed without a stop. -/
theorem Slatepack.not_stops_openPayload {addressLen : Nat} (h : N.AddressLength addressLen)
    (sp : Slatepack) (decrypted : Bytes) : ¬ Stops (openPayload N sp decrypted) := by
  unfold openPayload
  split_ifs with hshort
  · rintro ⟨_, h⟩
    cases h
  · dsimp only
    split_ifs with hlong
    · rintro ⟨_, h⟩
      cases h
    · have hcut : (decrypted.take (wordValue (decrypted.take 4) + 4)).take 4 = decrypted.take 4 := by
        rw [List.take_take, Nat.min_eq_left (by omega)]
      have hcovers := SlatepackEncMetadataBin.covers_cut h
        (s := decrypted.take (wordValue (decrypted.take 4) + 4)) (by
          rw [hcut, List.length_take]
          omega)
      have hcalm := (not_iff_not.mpr (SlatepackEncMetadataBin.panics_iff _)).mpr
        (not_not.mpr hcovers)
      cases hr : (SlatepackEncMetadataBin.read N.toSlatepackEnv
          (decrypted.take (wordValue (decrypted.take 4) + 4))).1 with
      | ok inner => exact not_stops_ok _
      | error e =>
          cases e with
          | Panic reason => exact absurd ⟨_, hr, reason, rfl⟩ hcalm
          | IOErr | CorruptedData | TooLargeReadErr | UnexpectedData _ _
          | UnsupportedProtocolVersion | CountError =>
              rintro ⟨_, h⟩
              cases h

/-- Decrypting stops on a file for a passphrase. -/
theorem Slatepack.stops_tryDecryptPayload (hlib : N.Reports) {addressLen : Nat}
    (h : N.AddressLength addressLen) (sp : Slatepack) (decKey : Option SecretKey) :
    Stops (sp.tryDecryptPayload N decKey) ↔
      sp.mode ≠ 0 ∧ ∃ key ∈ decKey, (∃ identity, N.ageIdentity key = .ok identity) ∧
        N.ageDecryptor sp.payload = .ok .Passphrase := by
  unfold tryDecryptPayload
  by_cases hmode : sp.mode = 0
  · rw [if_pos hmode]
    exact iff_of_false (not_stops_ok _) fun hp => hp.1 hmode
  · rw [if_neg hmode]
    cases decKey with
    | none => exact iff_of_false (not_stops_ok _) fun ⟨_, _, hkey, _⟩ => by cases hkey
    | some key =>
        dsimp only
        rw [stops_bind, or_iff_right (hlib.ageIdentity key)]
        constructor
        · rintro ⟨identity, hid, hstop⟩
          rw [stops_bind, or_iff_right (hlib.ageDecryptor _)] at hstop
          obtain ⟨decryptor, hage, hstop⟩ := hstop
          cases decryptor with
          | Passphrase => exact ⟨hmode, key, rfl, ⟨identity, hid⟩, hage⟩
          | Recipients decrypt =>
              dsimp only at hstop
              rw [stops_bind, or_iff_right (hlib.decrypt _ _ _ hage)] at hstop
              obtain ⟨decrypted, -, hstop⟩ := hstop
              exact (not_stops_openPayload h sp decrypted hstop).elim
        · rintro ⟨-, _, hkey, ⟨identity, hid⟩, hage⟩
          cases hkey
          refine ⟨identity, hid, ?_⟩
          rw [stops_bind]
          exact .inr ⟨_, hage, _, rfl⟩

/-- Parsing stops when the binary reader does. -/
theorem Slatepacker.stops_parseSlatepack (hlib : N.Reports) (data : Bytes) :
    Stops (parseSlatepack N data) ↔ ¬ SlatepackBin.Covers N.toSlatepackEnv data := by
  rw [← SlatepackBin.panics_iff]
  unfold parseSlatepack Panics Eff.FailsWith
  cases hr : (SlatepackBin.read N.toSlatepackEnv data).1 with
  | ok sp => simp [Stops]
  | error e =>
      cases e with
      | Panic reason => simp [Stops]
      | IOErr | CorruptedData | TooLargeReadErr | UnexpectedData _ _
      | UnsupportedProtocolVersion | CountError =>
          simpa using hlib.parseJson data

/-- A slatepack whose sender is covered by what it announces and which, when it
is to be decrypted, holds no file for a passphrase. -/
structure Slatepacker.Sound (N : PackerEnv F E) (args : SlatepackerArgs) (data : Bytes)
    (decrypt : Bool) : Prop where
  announced : ∀ bytes, removeArmor N data = .ok bytes →
    SlatepackBin.Covers N.toSlatepackEnv bytes
  encrypted : decrypt = true → ∀ bytes sp, removeArmor N data = .ok bytes →
    parseSlatepack N bytes = .ok sp → sp.mode ≠ 0 →
      ∀ key ∈ args.decKey, (∃ identity, N.ageIdentity key = .ok identity) →
        N.ageDecryptor sp.payload ≠ .ok .Passphrase

theorem Slatepacker.not_stops_removeArmor (data : Bytes) : ¬ Stops (removeArmor N data) := by
  unfold removeArmor
  split_ifs
  · exact SlatepackArmor.not_stops_decode data
  · exact not_stops_ok data

theorem Slatepacker.not_stops_deserSlatepack (hlib : N.Reports) {addressLen : Nat}
    (h : N.AddressLength addressLen) (args : SlatepackerArgs) (data : Bytes) (decrypt : Bool) :
    ¬ Stops (deserSlatepack N args data decrypt) ↔
      (SlatepackArmor.minSize ≤ data.length → data.length ≤ SlatepackArmor.maxSize N.toArmorEnv →
        Sound N args data decrypt) := by
  unfold deserSlatepack
  by_cases hlen : data.length < SlatepackArmor.minSize ∨
      data.length > SlatepackArmor.maxSize N.toArmorEnv
  · rw [if_pos hlen]
    refine iff_of_true ?_ fun hmin hmax => ?_
    · rintro ⟨_, h⟩
      cases h
    · omega
  · rw [if_neg hlen, stops_bind, or_iff_right (not_stops_removeArmor data)]
    constructor
    · intro hcalm hmin hmax
      refine ⟨fun bytes hbytes => ?_, fun hdec bytes sp hbytes hsp hmode key hkey hid hage => ?_⟩
      · by_contra hcovers
        exact hcalm ⟨bytes, hbytes, stops_bind.mpr (.inl ((stops_parseSlatepack hlib bytes).mpr hcovers))⟩
      · refine hcalm ⟨bytes, hbytes, stops_bind.mpr (.inr ⟨sp, hsp, ?_⟩)⟩
        rw [if_pos hdec, Slatepack.stops_tryDecryptPayload hlib h]
        exact ⟨hmode, key, hkey, hid, hage⟩
    · intro hsound ⟨bytes, hbytes, hstop⟩
      have hsound := hsound (by omega) (by omega)
      rcases stops_bind.mp hstop with hstop | ⟨sp, hsp, hstop⟩
      · exact (stops_parseSlatepack hlib bytes).mp hstop (hsound.announced bytes hbytes)
      · by_cases hdec : decrypt = true
        · rw [if_pos hdec, Slatepack.stops_tryDecryptPayload hlib h] at hstop
          obtain ⟨hmode, key, hkey, hid, hage⟩ := hstop
          exact hsound.encrypted hdec bytes sp hbytes hsp hmode key hkey hid hage
        · rw [if_neg hdec] at hstop
          exact not_stops_ok sp hstop

/-- Unpacking returns or reports an error, and skips no more bytes than were
announced, exactly on the data that is sound; what is decrypted is parsed
without a stop, and metadata on its own is when it covers its fields. -/
theorem Slatepacker.decoding_total_iff (hlib : N.Reports) {addressLen : Nat}
    (h : N.AddressLength addressLen) :
    (∀ args data decrypt, ¬ Stops (deserSlatepack N args data decrypt) ↔
      (SlatepackArmor.minSize ≤ data.length → data.length ≤ SlatepackArmor.maxSize N.toArmorEnv →
        Sound N args data decrypt)) ∧
    (∀ sp decrypted, ¬ Stops (Slatepack.openPayload N sp decrypted)) ∧
    (∀ s, ¬ Panics (SlatepackEncMetadataBin.read N.toSlatepackEnv) s ↔
      SlatepackEncMetadataBin.Covers N.toSlatepackEnv s) ∧
    Eff.Yields (SlatepackBin.readFields N.toSlatepackEnv) (fun p => p.2.2 ≤ p.2.1) ∧
    Eff.Yields (SlatepackEncMetadataBin.readFields N.toSlatepackEnv) fun p => p.2.2 ≤ p.2.1 :=
  ⟨not_stops_deserSlatepack hlib h, Slatepack.not_stops_openPayload h,
    fun s => not_iff_comm.mp (SlatepackEncMetadataBin.panics_iff s).symm,
    SlatepackBin.readFields_left, SlatepackEncMetadataBin.readFields_left⟩

end Packer

namespace SampleSlatepack

/-- The sample with addresses of one length. -/
def addressOf (data : Bytes) : Bytes :=
  if data = wordBytes 32 key then address else List.replicate 31 0 ++ data

def ofAddress (s : Bytes) : Option (String × Bytes) :=
  if s = address then some ("grin", wordBytes 32 key)
  else if s.length = 63 then some ("grin", s.drop 31)
  else none

theorem addressOf_length {data : Bytes} (h : data.length = 32) : (addressOf data).length = 63 := by
  unfold addressOf
  split_ifs
  · decide
  · rw [List.length_append, List.length_replicate, h]

theorem ofAddress_length {s : Bytes} {p : String × Bytes} (h : ofAddress s = some p) :
    s.length = 63 := by
  unfold ofAddress at h
  split_ifs at h with haddress hlen
  · rw [haddress]
    decide
  · exact hlen

theorem ofAddress_addressOf {data : Bytes} (h : data.length = 32) :
    ofAddress (addressOf data) = some ("grin", data) := by
  have hlen := addressOf_length h
  unfold ofAddress
  rw [hlen]
  unfold addressOf
  by_cases hkey : data = wordBytes 32 key
  · simp [hkey]
  · have hne : List.replicate 31 0 ++ data ≠ address := by
      intro he
      have hhead := congrArg List.head? he
      simp [address, ascii] at hhead
    rw [if_neg hkey, if_neg hne, if_pos rfl,
      List.drop_left' List.length_replicate]

/-- Files for a passphrase start with a byte no list of keys does. -/
def openAnyAge (file : Bytes) : Except Error AgeDecryptor :=
  if file.head? = some 255 then .ok .Passphrase else openAge file

/-- The sample packer, with addresses of one length and files for a passphrase. -/
def uniformPacker : PackerEnv Nat Nat :=
  { samplePacker with
    bech32Encode := fun hrp data => if hrp = "grin" then some (addressOf data) else none
    bech32Decode := ofAddress
    bech32_address := fun data h =>
      ⟨addressOf data, rfl, by rw [addressOf_length h]; decide, ofAddress_addressOf h⟩
    ageDecryptor := openAnyAge }

theorem uniformPacker_addressLength : uniformPacker.AddressLength 63 where
  encode data s hdata hs := by
    rw [← Option.some.inj hs]
    exact addressOf_length hdata
  decode s data hs _ := ofAddress_length hs

theorem openAge_recipients {file : Bytes} {decryptor : AgeDecryptor}
    (h : openAge file = .ok decryptor) :
    ∃ (keys : List Nat) (plain : Bytes), decryptor = .Recipients fun identity =>
      if identity ∈ keys then .ok plain else .error (.Age "No matching keys found") := by
  unfold openAge at h
  split at h
  · cases h
    exact ⟨_, _, rfl⟩
  · cases h

theorem uniformPacker_reports : uniformPacker.Reports where
  parseJson data := by
    rintro ⟨_, h⟩
    cases h
  ageIdentity key := not_stops_ok _
  ageDecryptor file := by
    show ¬ Stops (openAnyAge file)
    unfold openAnyAge openAge
    split_ifs
    · exact not_stops_ok _
    · split
      · exact not_stops_ok _
      · rintro ⟨_, h⟩
        cases h
  decrypt file decrypt identity hfile := by
    have hfile : openAnyAge file = .ok (.Recipients decrypt) := hfile
    unfold openAnyAge at hfile
    by_cases hpass : file.head? = some 255
    · rw [if_pos hpass] at hfile
      cases hfile
    rw [if_neg hpass] at hfile
    obtain ⟨keys, plain, hdecrypt⟩ := openAge_recipients hfile
    cases hdecrypt
    dsimp only
    split_ifs
    · exact not_stops_ok _
    · rintro ⟨_, h⟩
      cases h

/-- A binary slatepack with a payload whose sender takes 64 bytes, with the number of bytes it
announces in front of its payload. -/
def announcing (n : Nat) (mode : UInt8) (payload : Bytes) : Bytes :=
  [1, 0, mode, 0, 1] ++ Ser.u32.write n ++ [63] ++ address ++ Ser.u64.write payload.length ++ payload

/-- A file for the key 4. -/
def fileForFour : Bytes := Ser.u16.write 1 ++ wordBytes 32 4 ++ [0, 0, 0, 0, 9]

theorem announcing_64_decoded : ¬ Stops (Slatepacker.deserSlatepack uniformPacker ⟨none, [], some 4⟩
    (announcing 64 1 fileForFour) true) := by
  have hdata : Slatepacker.removeArmor uniformPacker (announcing 64 1 fileForFour)
      = .ok (announcing 64 1 fileForFour) := by decide +kernel
  refine ((Slatepacker.decoding_total_iff uniformPacker_reports uniformPacker_addressLength).1
    _ _ _).mpr fun _ _ => ⟨fun bytes hbytes => ?_, fun _ bytes sp hbytes hsp _ _ _ _ hage => ?_⟩
  · rw [hdata] at hbytes
    cases hbytes
    intro version mode flags announced s' hheader
    have hread : SlatepackBin.readHeader (announcing 64 1 fileForFour) =
        (.ok (⟨1, 0⟩, 1, 1, 64), 63 :: (address ++ Ser.u64.write 39 ++ fileForFour)) := by
      decide +kernel
    rw [hread] at hheader
    cases hheader
    decide +kernel
  · rw [hdata] at hbytes
    cases hbytes
    have hfile : ∀ sp ∈ (Slatepacker.parseSlatepack uniformPacker
        (announcing 64 1 fileForFour)).toOption, sp.payload = fileForFour := by decide +kernel
    rw [hsp] at hfile
    have hopen : openAnyAge fileForFour = .ok .Passphrase := by
      rw [← hfile sp rfl]
      exact hage
    unfold openAnyAge at hopen
    rw [if_neg (by decide)] at hopen
    obtain ⟨keys, plain, hdecryptor⟩ := openAge_recipients hopen
    cases hdecryptor

/-- A slatepack that announces no bytes in front of its payload, and has a sender
there. -/
theorem announcing_0_stops : ¬ ∀ (args : SlatepackerArgs) (data : Bytes) (decrypt : Bool),
    ¬ Stops (Slatepacker.deserSlatepack uniformPacker args data decrypt) := by
  intro hall
  refine hall ⟨none, [], none⟩ (announcing 0 0 []) false ⟨"attempt to subtract with overflow", ?_⟩
  decide +kernel

end SampleSlatepack

end GrinWallet
