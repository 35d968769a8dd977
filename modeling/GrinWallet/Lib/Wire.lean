import GrinWallet.Lib.Effect
import Mathlib.Algebra.Group.Nat.Defs

/-! # Reading and writing bytes

A reader is a computation on the bytes still unread. `Decodes r bs a` says that
`r` reads exactly the bytes `bs`, whatever follows them, and returns `a`: the
statement composes along the sequence of a reader, so that the round trip of a
format is assembled from those of its fields. A `Codec` bundles a writer, a
reader and that law on the values it can write.
-/

namespace Wire

open Effect

abbrev Bytes := List UInt8

/-- A computation on the bytes still unread. -/
abbrev Reader (ε α : Type) := Eff Bytes ε α

/-- The reader takes exactly these bytes, whatever follows, and returns the value. -/
def Decodes {ε α : Type} (r : Reader ε α) (bs : Bytes) (a : α) : Prop :=
  ∀ rest, r (bs ++ rest) = (.ok a, rest)

namespace Decodes

variable {ε α β : Type} {r : Reader ε α} {bs cs : Bytes} {a : α} {b : β}

theorem eq_ok (h : Decodes r bs a) : r bs = (.ok a, []) := by
  simpa using h []

/-- A reader that takes exactly the given bytes returns only one value for them. -/
theorem value_eq (h : Decodes r bs a) {a' : α} (h' : (r bs).1 = .ok a') : a' = a := by
  rw [h.eq_ok] at h'
  cases h'
  rfl

theorem pure (a : α) : Decodes (Pure.pure a : Reader ε α) [] a := fun _ => rfl

theorem bind {f : α → Reader ε β} (h : Decodes r bs a) (hf : Decodes (f a) cs b) :
    Decodes (r >>= f) (bs ++ cs) b := by
  intro rest
  rw [List.append_assoc, Eff.run_bind_ok (h (cs ++ rest))]
  exact hf rest

/-- A sequence goes on behind the bytes its first part takes. -/
theorem run_bind (h : Decodes r bs a) (f : α → Reader ε β) (rest : Bytes) :
    (r >>= f) (bs ++ rest) = f a rest :=
  Eff.run_bind_ok (h rest)

/-- The last read of a sequence. -/
theorem bind_last {f : α → Reader ε β} (h : Decodes r bs a) (hf : Decodes (f a) [] b) :
    Decodes (r >>= f) bs b := by
  simpa using h.bind hf

theorem map (f : α → β) (h : Decodes r bs a) : Decodes (f <$> r) bs (f a) := by
  intro rest
  rw [Eff.run_map, h rest]

theorem ofExcept_bind {x : Except ε α} {f : α → Reader ε β} (h : x = .ok a)
    (hf : Decodes (f a) cs b) : Decodes (Eff.ofExcept x >>= f) cs b := by
  subst h
  exact hf

end Decodes

/-! ## Settling -/

section Settles

variable {ε α β : Type} {r : Reader ε α} {bs cs : Bytes} {x : Except ε α}

/-- Whatever follows these bytes, the reader takes exactly them and returns the value, or
fails on them with the error. -/
def Settles (r : Reader ε α) (bs : Bytes) : Except ε α → Prop
  | .ok a => Decodes r bs a
  | .error e => ∀ rest, (r (bs ++ rest)).1 = .error e

theorem Settles.fst_eq (h : Settles r bs x) (rest : Bytes) : (r (bs ++ rest)).1 = x := by
  cases x with
  | ok a => rw [h rest]
  | error e => exact h rest

theorem Settles.bind {c : Bytes} {f : α → Reader ε β} {y : α → Except ε β} (h : Settles r bs x)
    (hf : ∀ a, x = .ok a → Settles (f a) c (y a)) : Settles (r >>= f) (bs ++ c) (x >>= y) := by
  cases x with
  | error e =>
      intro rest
      have he := h (c ++ rest)
      rw [List.append_assoc]
      cases hrun : r (bs ++ (c ++ rest)) with
      | mk a s =>
          rw [hrun] at he
          subst he
          rw [Eff.run_bind_error hrun]
  | ok a =>
      have ha := hf a rfl
      show Settles (r >>= f) (bs ++ c) (y a)
      cases hy : y a with
      | ok b =>
          rw [hy] at ha
          exact Decodes.bind h ha
      | error e =>
          rw [hy] at ha
          intro rest
          rw [List.append_assoc, Decodes.run_bind h]
          exact ha rest

/-- The last part of a sequence. -/
theorem Settles.bind_last {f : α → Reader ε β} {y : α → Except ε β} (h : Settles r bs x)
    (hf : ∀ a, x = .ok a → Settles (f a) [] (y a)) : Settles (r >>= f) bs (x >>= y) := by
  simpa using h.bind hf

theorem Decodes.settles {a : α} (h : Decodes r bs a) : Settles r bs (.ok a) := h

theorem Settles.throw (e : ε) (bs : Bytes) : Settles (throw e : Reader ε α) bs (.error e) :=
  fun _ => rfl

end Settles

/-! ## Optional parts -/

section Optional

variable {ε α : Type} {r : Reader ε α}

/-- Read a part when it is there, else take its default. -/
def readIf (c : Prop) [Decidable c] (r : Reader ε α) (default : α) : Reader ε α :=
  if c then r else pure default

/-- A part written when a condition holds and read when it holds. -/
theorem readIf_decodes {c c' : Prop} [Decidable c] [Decidable c'] {bs : Bytes} {a : α}
    (hc : c' ↔ c) (default : α) (h : c → Decodes r bs a) :
    Decodes (readIf c' r default) (if c then bs else []) (if c then a else default) := by
  unfold readIf
  by_cases hp : c
  · rw [if_pos hp, if_pos hp, if_pos (hc.mpr hp)]
    exact h hp
  · rw [if_neg hp, if_neg hp, if_neg fun hq => hp (hc.mp hq)]
    exact .pure default

/-- A part written and read when it is present. -/
theorem readIf_some_decodes {β : Type} {c : Prop} [Decidable c] {o : Option β} {write : β → Bytes}
    {f : β → α} (hc : c ↔ o.isSome) (h : ∀ b ∈ o, Decodes r (write b) (f b)) :
    Decodes (readIf c (some <$> r) none) (o.elim [] write) (o.map f) := by
  unfold readIf
  cases o with
  | none =>
      rw [if_neg (by simpa using hc)]
      exact .pure none
  | some b =>
      rw [if_pos (by simpa using hc)]
      exact (h b rfl).map some

end Optional

/-! ## Byte strings -/

section Take

variable {ε : Type}

/-- Read a given number of bytes. -/
def takeBytes (e : ε) (n : Nat) : Reader ε Bytes := fun s =>
  if n ≤ s.length then (.ok (s.take n), s.drop n) else (.error e, s)

theorem takeBytes_decodes (e : ε) {n : Nat} {bs : Bytes} (h : bs.length = n) :
    Decodes (takeBytes e n) bs bs := by
  intro rest
  subst h
  simp [takeBytes]

theorem takeBytes_eq_ok {e : ε} {n : Nat} {s s' bs : Bytes}
    (h : takeBytes e n s = (.ok bs, s')) : s = bs ++ s' ∧ bs.length = n := by
  unfold takeBytes at h
  by_cases hn : n ≤ s.length
  · rw [if_pos hn] at h
    cases h
    exact ⟨(List.take_append_drop n s).symm, List.length_take_of_le hn⟩
  · rw [if_neg hn] at h
    cases h

theorem not_failsWith_takeBytes {P : ε → Prop} {e : ε} (h : ¬ P e) (n : Nat) (s : Bytes) :
    ¬ Eff.FailsWith P (takeBytes e n) s := by
  by_cases hn : n ≤ s.length
  · exact Eff.not_failsWith_of_ok (if_pos hn)
  · have hrun : takeBytes e n s = (.error e, s) := if_neg hn
    rw [Eff.failsWith_of_error hrun]
    exact h

end Take

/-! ## Big-endian words -/

/-- The number a string of bytes spells, the highest byte first. -/
def wordValue : Bytes → Nat
  | [] => 0
  | b :: bs => b.toNat * 256 ^ bs.length + wordValue bs

/-- The low `k` bytes of a number, the highest first. -/
def wordBytes : Nat → Nat → Bytes
  | 0, _ => []
  | k + 1, v => UInt8.ofNat (v / 256 ^ k) :: wordBytes k v

@[simp] theorem wordBytes_length (k v : Nat) : (wordBytes k v).length = k := by
  induction k with
  | zero => rfl
  | succ k ih => rw [wordBytes, List.length_cons, ih]

theorem wordValue_wordBytes (k v : Nat) : wordValue (wordBytes k v) = v % 256 ^ k := by
  induction k with
  | zero => simp [wordBytes, wordValue, Nat.mod_one]
  | succ k ih =>
      have hbyte : (UInt8.ofNat (v / 256 ^ k)).toNat = v / 256 ^ k % 256 := by simp
      rw [wordBytes, wordValue, hbyte, wordBytes_length, ih, Nat.mod_pow_succ, Nat.mul_comm]
      omega

theorem wordValue_lt (bs : Bytes) : wordValue bs < 256 ^ bs.length := by
  induction bs with
  | nil => simp [wordValue]
  | cons b bs ih =>
      have hb : b.toNat ≤ 255 := by
        have := b.toNat_lt
        omega
      have hmul := Nat.mul_le_mul_right (256 ^ bs.length) hb
      rw [wordValue, List.length_cons, Nat.pow_succ]
      omega

/-! ## Codecs -/

/-- A writer and a reader that undo each other on the values the writer takes. -/
structure Codec (ε α : Type) where
  Valid : α → Prop
  write : α → Bytes
  read : Reader ε α
  decodes : ∀ a, Valid a → Decodes read (write a) a

/-- Words of `k` bytes. -/
def word {ε : Type} (e : ε) (k : Nat) : Codec ε Nat where
  Valid v := v < 256 ^ k
  write := wordBytes k
  read := wordValue <$> takeBytes e k
  decodes v hv := by
    have h := (takeBytes_decodes e (wordBytes_length k v)).map wordValue
    rwa [wordValue_wordBytes, Nat.mod_eq_of_lt hv] at h

theorem word_write_length {ε : Type} (e : ε) (k v : Nat) : ((word e k).write v).length = k :=
  wordBytes_length k v

/-- The value of what is written for a number in range. -/
theorem wordValue_word_write {ε : Type} {e : ε} {k v : Nat} (h : v < 256 ^ k) :
    wordValue ((word e k).write v) = v := by
  show wordValue (wordBytes k v) = v
  rw [wordValue_wordBytes, Nat.mod_eq_of_lt h]

theorem word_read_eq_ok {ε : Type} {e : ε} {k v : Nat} {s s' : Bytes}
    (h : (word e k).read s = (.ok v, s')) :
    ∃ bs, s = bs ++ s' ∧ bs.length = k ∧ v = wordValue bs := by
  have h : (wordValue <$> takeBytes e k) s = (.ok v, s') := h
  rw [map_eq_pure_bind] at h
  obtain ⟨bs, m, htake, hv⟩ := Eff.bind_eq_ok.mp h
  cases hv
  exact ⟨bs, (takeBytes_eq_ok htake).1, (takeBytes_eq_ok htake).2, rfl⟩

theorem not_failsWith_word {ε : Type} {P : ε → Prop} {e : ε} (h : ¬ P e) (k : Nat) (s : Bytes) :
    ¬ Eff.FailsWith P (word e k).read s := by
  show ¬ Eff.FailsWith P (wordValue <$> takeBytes e k) s
  rw [map_eq_pure_bind]
  exact Eff.not_failsWith_bind (not_failsWith_takeBytes h k)
    (fun _ _ => Eff.not_failsWith_pure _) s

/-- Types whose values are written as strings of one length. -/
structure FixedCodec (α : Type) (n : Nat) where
  Valid : α → Prop
  toBytes : α → Bytes
  fromBytes : Bytes → Option α
  length_toBytes : ∀ a, (toBytes a).length = n
  fromBytes_toBytes : ∀ a, Valid a → fromBytes (toBytes a) = some a

/-- Numbers of `k` bytes. -/
def fixedWord (k : Nat) : FixedCodec Nat k where
  Valid v := v < 256 ^ k
  toBytes := wordBytes k
  fromBytes bs := some (wordValue bs)
  length_toBytes := wordBytes_length k
  fromBytes_toBytes v hv := by rw [wordValue_wordBytes, Nat.mod_eq_of_lt hv]

/-! ## Counted sequences -/

/-- Read past a given number of bytes. -/
def skipBytes {ε : Type} (e : ε) : Nat → Reader ε Unit
  | 0 => pure ()
  | n + 1 => do
      let _ ← (word e 1).read
      skipBytes e n

theorem skipBytes_decodes {ε : Type} (e : ε) (bs : Bytes) :
    Decodes (skipBytes e bs.length) bs () := by
  induction bs with
  | nil => exact .pure ()
  | cons b bs ih =>
      have hb := (takeBytes_decodes e (List.length_singleton (a := b))).map wordValue
      exact hb.bind ih

theorem not_failsWith_skipBytes {ε : Type} {P : ε → Prop} {e : ε} (h : ¬ P e) (n : Nat) :
    ∀ s, ¬ Eff.FailsWith P (skipBytes e n) s := by
  induction n with
  | zero => exact fun s => Eff.not_failsWith_pure ()
  | succ n ih => exact Eff.not_failsWith_bind (not_failsWith_word h 1) fun _ => ih

section Times

variable {ε α β : Type}

/-- Read a given number of items. -/
def times : Nat → Reader ε α → Reader ε (List α)
  | 0, _ => pure []
  | n + 1, r => do
      let a ← r
      let as ← times n r
      return a :: as

/-- Items written one behind the other are read back in order. -/
theorem times_decodes {r : Reader ε β} {write : α → Bytes} {f : α → β} {as : List α}
    (h : ∀ a ∈ as, Decodes r (write a) (f a)) :
    Decodes (times as.length r) (as.flatMap write) (as.map f) := by
  induction as with
  | nil => exact .pure []
  | cons a as ih =>
      have ha : Decodes r (write a) (f a) := h a List.mem_cons_self
      have has := ih fun b hb => h b (List.mem_cons_of_mem a hb)
      exact ha.bind (has.bind_last (.pure _))

end Times


/-! ## Exact readers -/

/-- The reader accepts exactly what is written for a value of the kind it reads, whatever
follows. -/
def Exact {ε α : Type} (r : Reader ε α) (write : α → Bytes) (P : α → Prop) : Prop :=
  ∀ s a s', r s = (.ok a, s') ↔ s = write a ++ s' ∧ P a

namespace Exact

variable {ε α β : Type} {r : Reader ε α} {write : α → Bytes} {P : α → Prop}

theorem decodes (h : Exact r write P) {a : α} (ha : P a) : Decodes r (write a) a :=
  fun rest => (h (write a ++ rest) a rest).mpr ⟨rfl, ha⟩

/-- What is written for one value is written for no other. -/
theorem injective (h : Exact r write P) {a b : α} (ha : P a) (hb : P b)
    (heq : write a = write b) : a = b := by
  have hread := (h.decodes ha).eq_ok
  rw [heq] at hread
  exact ((h.decodes hb).value_eq (by rw [hread]))

theorem congr {write' : α → Bytes} {P' : α → Prop} (h : Exact r write P)
    (hP : ∀ a, P a ↔ P' a) (hwrite : ∀ a, P a → write a = write' a) : Exact r write' P' := by
  intro s a s'
  rw [h s a s', ← hP a]
  constructor
  · intro ⟨hs, ha⟩
    exact ⟨by rw [hs, hwrite a ha], ha⟩
  · intro ⟨hs, ha⟩
    exact ⟨by rw [hs, hwrite a ha], ha⟩

theorem pure (a : α) : Exact (Pure.pure a : Reader ε α) (fun _ => []) (fun b => b = a) := by
  intro s b s'
  rw [Eff.run_pure, Prod.mk.injEq, Except.ok.injEq, List.nil_append]
  exact ⟨fun h => ⟨h.2, h.1.symm⟩, fun h => ⟨h.2.symm, h.1⟩⟩

theorem takeBytes (e : ε) (n : Nat) :
    Exact (Wire.takeBytes e n) (fun bs => bs) (fun bs => bs.length = n) := by
  intro s bs s'
  constructor
  · exact takeBytes_eq_ok
  · intro ⟨hs, hlen⟩
    rw [hs]
    exact takeBytes_decodes e hlen s'

/-- A sequence whose first part is found again in its result. -/
theorem bind {f : α → Reader ε β} {write' : α → β → Bytes} {Q : α → β → Prop} (get : β → α)
    (h : Exact r write P) (hf : ∀ a, P a → Exact (f a) (write' a) (Q a))
    (hget : ∀ a b, P a → Q a b → get b = a) :
    Exact (r >>= f) (fun b => write (get b) ++ write' (get b) b)
      (fun b => P (get b) ∧ Q (get b) b) := by
  intro s b s'
  constructor
  · intro hrun
    obtain ⟨a, m, hr, hb⟩ := Eff.bind_eq_ok.mp hrun
    obtain ⟨hs, ha⟩ := (h s a m).mp hr
    obtain ⟨hm, hq⟩ := (hf a ha m b s').mp hb
    show s = (write (get b) ++ write' (get b) b) ++ s' ∧ P (get b) ∧ Q (get b) b
    rw [hget a b ha hq]
    exact ⟨by rw [hs, hm, List.append_assoc], ha, hq⟩
  · intro ⟨hs, ha, hq⟩
    rw [hs]
    exact (h.decodes ha).bind ((hf _ ha).decodes hq) s'

end Exact

theorem wordBytes_mul_add (k c v : Nat) : wordBytes k (c * 256 ^ k + v) = wordBytes k v := by
  induction k generalizing c with
  | zero => rfl
  | succ k ih =>
      have hsplit : c * 256 ^ (k + 1) + v = c * 256 * 256 ^ k + v := by
        rw [Nat.pow_succ, Nat.mul_comm (256 ^ k), ← Nat.mul_assoc]
      have hdiv : (c * 256 * 256 ^ k + v) / 256 ^ k = c * 256 + v / 256 ^ k := by
        rw [Nat.mul_comm (c * 256), Nat.mul_add_div (Nat.pow_pos (by decide))]
      have hbyte : UInt8.ofNat (c * 256 + v / 256 ^ k) = UInt8.ofNat (v / 256 ^ k) := by
        apply UInt8.toNat_inj.mp
        simp only [UInt8.toNat_ofNat']
        omega
      rw [hsplit, wordBytes, hdiv, hbyte, ih, wordBytes]

/-- The digits of a number spelled by a string are that string. -/
theorem wordBytes_wordValue (bs : Bytes) : wordBytes bs.length (wordValue bs) = bs := by
  induction bs with
  | nil => rfl
  | cons b bs ih =>
      have hlt := wordValue_lt bs
      have hpos : 0 < 256 ^ bs.length := Nat.pow_pos (by decide)
      have hhigh : (b.toNat * 256 ^ bs.length + wordValue bs) / 256 ^ bs.length = b.toNat := by
        rw [Nat.mul_comm, Nat.mul_add_div hpos, Nat.div_eq_of_lt hlt, Nat.add_zero]
      have hlow : wordBytes bs.length (b.toNat * 256 ^ bs.length + wordValue bs) = bs := by
        rw [wordBytes_mul_add, ih]
      rw [wordValue, List.length_cons, wordBytes, hhigh, hlow]
      simp

theorem Exact.word {ε : Type} (e : ε) (k : Nat) :
    Exact (Wire.word e k).read (Wire.word e k).write (fun v => v < 256 ^ k) := by
  intro s v s'
  constructor
  · intro h
    obtain ⟨bs, hs, hlen, hv⟩ := word_read_eq_ok h
    subst hlen hv
    exact ⟨by rw [hs]; exact congrArg (· ++ s') (wordBytes_wordValue bs).symm, wordValue_lt bs⟩
  · intro ⟨hs, hv⟩
    rw [hs]
    exact (Wire.word e k).decodes v hv s'

/-- A given number of items. -/
theorem Exact.times {ε α : Type} {r : Reader ε α} {write : α → Bytes} {P : α → Prop}
    (h : Exact r write P) (n : Nat) :
    Exact (Wire.times n r) (fun as => as.flatMap write)
      (fun as => as.length = n ∧ ∀ a ∈ as, P a) := by
  induction n with
  | zero =>
      refine (Exact.pure []).congr (fun as => ?_) fun as has => ?_
      · rw [List.length_eq_zero_iff]
        constructor
        · intro has
          rw [has]
          exact ⟨rfl, fun a ha => (List.not_mem_nil ha).elim⟩
        · exact And.left
      · rw [has]
        rfl
  | succ n ih =>
      intro s as s'
      constructor
      · intro hrun
        obtain ⟨a, m, hr, hrun⟩ := Eff.bind_eq_ok.mp hrun
        obtain ⟨rest, m', hrest, hend⟩ := Eff.bind_eq_ok.mp hrun
        cases hend
        obtain ⟨hs, ha⟩ := (h s a m).mp hr
        obtain ⟨hm, hlen, hall⟩ := (ih m rest s').mp hrest
        refine ⟨?_, by rw [List.length_cons, hlen], List.forall_mem_cons.mpr ⟨ha, hall⟩⟩
        rw [hs, hm]
        exact (List.append_assoc _ _ _).symm
      · intro ⟨hs, hlen, hall⟩
        cases as with
        | nil => cases hlen
        | cons a rest =>
            obtain ⟨ha, hall⟩ := List.forall_mem_cons.mp hall
            have hrest := ih.decodes ⟨Nat.succ.inj hlen, hall⟩
            rw [hs]
            exact (h.decodes ha).bind (hrest.bind_last (.pure (a :: rest))) s'

end Wire
