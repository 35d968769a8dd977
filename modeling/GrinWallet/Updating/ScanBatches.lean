import GrinWallet.Model.Update

/-! # Scanning in batches

A scan walks the heights in batches and asks the node for the outputs of each batch
page by page. Against a node that serves one chain the batches meet every height and
every unspent output once.
-/

namespace GrinWallet

open Effect WalletBackend Sections

variable {F E : Type}

/-! ## The batches of a height range -/

namespace Owner

/-- The start heights of the batches, of whatever size. -/
def batchStarts (start tip : Nat) : List Nat :=
  (List.range ((tip + 1 - start + 10000) / 10001)).map fun i => start + i * 10001

theorem batchStarts_of_lt {start tip : Nat} (h : tip < start) : batchStarts start tip = [] := by
  have hzero : (tip + 1 - start + 10000) / 10001 = 0 := by omega
  rw [batchStarts, hzero]
  rfl

theorem batchStarts_of_le {start tip : Nat} (h : start ≤ tip) :
    batchStarts start tip = start :: batchStarts (start + 10001) tip := by
  have hsucc : (tip + 1 - start + 10000) / 10001 =
      (tip + 1 - (start + 10001) + 10000) / 10001 + 1 := by omega
  rw [batchStarts, hsucc, List.range_succ_eq_map, List.map_cons, List.map_map, batchStarts]
  congr 1
  apply List.map_congr_left
  intro i _
  show start + (i + 1) * 10001 = start + 10001 + i * 10001
  omega

theorem mem_batchStarts {start tip h : Nat} (hmem : h ∈ batchStarts start tip) :
    start ≤ h ∧ h ≤ tip := by
  unfold batchStarts at hmem
  obtain ⟨i, hi, rfl⟩ := List.mem_map.mp hmem
  have hlt := List.mem_range.mp hi
  omega

/-- What holds of a height range cut into its batches holds if it holds of an empty
range and is extended by a batch. -/
theorem batchStarts_induction {P : Nat → Prop} {t : Nat} (hdone : ∀ start, t < start → P start)
    (hbatch : ∀ start, start ≤ t → P (start + 10001) → P start) (start : Nat) : P start := by
  by_cases h : t < start
  · exact hdone start h
  · exact hbatch start (by omega) (batchStarts_induction hdone hbatch (start + 10001))
termination_by t + 1 - start

/-- Any walk over positions in one direction meets the batches one after the other. -/
theorem batchStarts_flatMap {α : Type} (between : Nat → Nat → List α)
    (hjoin : ∀ a b c, a ≤ b → b ≤ c → between a b ++ between b c = between a c) (tip start : Nat) :
    (batchStarts start tip).flatMap (fun h => between h (min tip (h + 10000) + 1)) =
      if start ≤ tip then between start (tip + 1) else [] := by
  induction start using batchStarts_induction (t := tip) with
  | hdone start h => rw [batchStarts_of_lt h, if_neg (by omega), List.flatMap_nil]
  | hbatch start h ih =>
      rw [batchStarts_of_le h, List.flatMap_cons, ih, if_pos h]
      by_cases hlast : start + 10001 ≤ tip
      · have hend : min tip (start + 10000) + 1 = start + 10001 := by omega
        rw [if_pos hlast, hend, hjoin _ _ _ (by omega) (by omega)]
      · have hend : min tip (start + 10000) + 1 = tip + 1 := by omega
        rw [if_neg hlast, hend, List.append_nil]

/-- The sums of a scan fit a `u64`: the height above the tip, and the end of the last
batch before it is cut to the tip. -/
def HeightsFit (start tip : Nat) : Prop :=
  start ≤ tip → tip + 1 < 2 ^ 64 ∧ start + (tip - start) / 10001 * 10001 + 10000 < 2 ^ 64

instance (start tip : Nat) : Decidable (HeightsFit start tip) :=
  inferInstanceAs (Decidable (_ → _ ∧ _))

theorem heightBatches_of_fit {start tip : Nat} (h : HeightsFit start tip) :
    heightBatches start tip = batchStarts start tip := by
  have hcount : u64 (tip + 1) - start = tip + 1 - start := by
    by_cases hle : start ≤ tip
    · rw [u64_of_lt (h hle).1]
    · have hmod : u64 (tip + 1) ≤ tip + 1 := Nat.mod_le _ _
      omega
  rw [heightBatches, batchStarts, hcount]

theorem batchEnd_of_fit {start tip k : Nat} (h : HeightsFit start tip)
    (hle : start + k * 10001 ≤ tip) :
    batchEnd tip (start + k * 10001) = min tip (start + k * 10001 + 10000) := by
  have hlast := (h (by omega)).2
  have hk : k ≤ (tip - start) / 10001 := by omega
  have hend : start + k * 10001 + 10000 < 2 ^ 64 := by
    have hmul := Nat.mul_le_mul_right 10001 hk
    exact lt_of_le_of_lt (by omega) hlast
  rw [batchEnd, u64_of_lt hend]

/-- A walk over the batches whose sums fit is one over their heights. -/
theorem flatMap_of_fit {α : Type} {start tip : Nat} (h : HeightsFit start tip)
    (f : Nat → Nat → List α) :
    (heightBatches start tip).flatMap (fun x => f x (batchEnd tip x)) =
      (batchStarts start tip).flatMap fun x => f x (min tip (x + 10000)) := by
  rw [heightBatches_of_fit h, List.flatMap_def, List.flatMap_def]
  refine congrArg List.flatten (List.map_congr_left fun x hx => ?_)
  obtain ⟨k, -, rfl⟩ := List.mem_map.mp hx
  rw [batchEnd_of_fit h (mem_batchStarts hx).2]

/-- Where a sum does not fit the tip is in no batch. -/
theorem heightsFit_of_mem {start tip : Nat} (htip : tip < 2 ^ 64)
    (h : tip ∈ (heightBatches start tip).flatMap
      fun x => List.range' x (batchEnd tip x + 1 - x)) : HeightsFit start tip := by
  obtain ⟨x, hx, hmem⟩ := List.mem_flatMap.mp h
  obtain ⟨k, hk, rfl⟩ := List.mem_map.mp hx
  have hcount := List.mem_range.mp hk
  obtain ⟨hlow, hhigh⟩ := List.mem_range'_1.mp hmem
  have hend : batchEnd tip (start + k * 10001) ≤ u64 (start + k * 10001 + 10000) := min_le_right _ _
  have habove : tip + 1 < 2 ^ 64 := by
    by_contra hover
    rw [show tip + 1 = 2 ^ 64 by omega, show u64 (2 ^ 64) = 0 from rfl] at hcount
    omega
  have hbelow : start + k * 10001 + 10000 < 2 ^ 64 := by
    by_contra hover
    have hwrap : u64 (start + k * 10001 + 10000) = start + k * 10001 + 10000 - 2 ^ 64 := by
      rw [u64, Nat.mod_eq_sub_mod (not_lt.mp hover), Nat.mod_eq_of_lt (by omega)]
    omega
  rw [u64_of_lt hbelow] at hend
  have hlast : (tip - start) / 10001 = k := by omega
  unfold HeightsFit
  rw [hlast]
  exact fun _ => ⟨habove, hbelow⟩

end Owner

/-- The first height after the first `k` batches. -/
def firstUnscanned (start tip k : Nat) : Nat := min (tip + 1) (start + k * 10001)

theorem Owner.batchStarts_length_pos {start tip : Nat} (h : start ≤ tip) :
    0 < (batchStarts start tip).length := by
  rw [batchStarts_of_le h, List.length_cons]
  exact Nat.succ_pos _

/-- After all batches the first height left is the one above the tip. -/
theorem Owner.firstUnscanned_all {start tip : Nat} (h : start ≤ tip) :
    firstUnscanned start tip (batchStarts start tip).length - 1 = tip := by
  have hlen : (batchStarts start tip).length = (tip + 1 - start + 10000) / 10001 := by
    rw [batchStarts, List.length_map, List.length_range]
  rw [hlen, firstUnscanned]
  omega

/-- The heights of the first `k` batches are those below the first one unscanned. -/
theorem heights_take (start tip k : Nat) :
    ((Owner.batchStarts start tip).take k).flatMap
      (fun h => List.range' h (min tip (h + 10000) + 1 - h)) =
      List.range' start (firstUnscanned start tip k - start) := by
  induction k generalizing start with
  | zero =>
      have hzero : firstUnscanned start tip 0 - start = 0 := by
        unfold firstUnscanned
        omega
      rw [hzero]
      rfl
  | succ k ih =>
      by_cases h : tip < start
      · have hzero : firstUnscanned start tip (k + 1) - start = 0 := by
          unfold firstUnscanned
          omega
        rw [Owner.batchStarts_of_lt h, hzero]
        rfl
      · rw [Owner.batchStarts_of_le (by omega), List.take_succ_cons, List.flatMap_cons, ih]
        by_cases hlast : start + 10001 ≤ tip
        · have hlen : firstUnscanned start tip (k + 1) - start =
              min tip (start + 10000) + 1 - start +
                (firstUnscanned (start + 10001) tip k - (start + 10001)) := by
            unfold firstUnscanned
            omega
          have hstart : start + (min tip (start + 10000) + 1 - start) = start + 10001 := by omega
          rw [hlen, ← List.range'_append_1, hstart]
        · have hlen : firstUnscanned start tip (k + 1) - start =
              min tip (start + 10000) + 1 - start := by
            unfold firstUnscanned
            omega
          have hzero : firstUnscanned (start + 10001) tip k - (start + 10001) = 0 := by
            unfold firstUnscanned
            omega
          rw [hlen, hzero, List.range'_zero, List.append_nil]

/-! ## The chain a node serves -/

/-- The outputs of a chain: how many positions come before each height, and the output
unspent at a position. -/
structure OutputIndex (E : Type) where
  size : Nat → Nat
  mono : Monotone size
  unspent : Nat → Option (ChainOutput E)

/-- The unspent outputs at the positions of a range, both ends included. -/
def OutputIndex.between (chain : OutputIndex E) (first last : Nat) : List (ChainOutput E) :=
  (List.range' first (last + 1 - first)).filterMap chain.unspent

theorem OutputIndex.between_nil (chain : OutputIndex E) {first last : Nat} (h : last < first) :
    chain.between first last = [] := by
  have hzero : last + 1 - first = 0 := by omega
  rw [between, hzero]
  rfl

theorem OutputIndex.between_append (chain : OutputIndex E) {a b c : Nat} (hab : a ≤ b + 1)
    (hbc : b ≤ c) : chain.between a b ++ chain.between (b + 1) c = chain.between a c := by
  have hlen : c + 1 - a = b + 1 - a + (c + 1 - (b + 1)) := by omega
  have hstart : a + (b + 1 - a) = b + 1 := by omega
  rw [between, between, between, ← List.filterMap_append, hlen, ← List.range'_append_1, hstart]

/-- A node serves a chain: consecutive heights have consecutive positions, and a page
holds the unspent outputs up to a position it reports, which comes closer to the end. -/
structure Serves (node : Nat → NodeClient F E) (chain : OutputIndex E) : Prop where
  range : ∀ tick h e, h ≤ e →
    (node tick).heightRangeToPmmrIndices h (some e) = .ok (chain.size h + 1, chain.size (e + 1))
  page : ∀ tick first last, first ≤ last + 1 → ∃ reached, min first last ≤ reached ∧
    reached ≤ last ∧ (node tick).getOutputsByPmmrIndex first (some last) 1000 =
      .ok (last, reached, chain.between first reached)

namespace Owner

/-- The batches hold every height once. -/
theorem heightBatches_heights {start tip : Nat} (hfit : HeightsFit start tip) :
    (heightBatches start tip).flatMap (fun h => List.range' h (batchEnd tip h + 1 - h)) =
      List.range' start (tip + 1 - start) := by
  have hjoin : ∀ a b c, a ≤ b → b ≤ c →
      List.range' a (b - a) ++ List.range' b (c - b) = List.range' a (c - a) := by
    intro a b c hab hbc
    have hlen : c - a = b - a + (c - b) := by omega
    have hstart : a + (b - a) = b := by omega
    rw [hlen, ← List.range'_append_1, hstart]
  rw [flatMap_of_fit hfit fun h e => List.range' h (e + 1 - h),
    batchStarts_flatMap (fun a b => List.range' a (b - a)) hjoin]
  by_cases h : start ≤ tip
  · rw [if_pos h]
  · have hzero : tip + 1 - start = 0 := by omega
    rw [if_neg h, hzero, List.range'_zero]

/-- The ranges of the batches hold every unspent output of the heights once. -/
theorem heightBatches_outputs (chain : OutputIndex E) {start tip : Nat}
    (hfit : HeightsFit start tip) :
    (heightBatches start tip).flatMap
        (fun h => chain.between (chain.size h + 1) (chain.size (batchEnd tip h + 1))) =
      chain.between (chain.size start + 1) (chain.size (tip + 1)) := by
  have hjoin : ∀ a b c, a ≤ b → b ≤ c →
      chain.between (chain.size a + 1) (chain.size b) ++
        chain.between (chain.size b + 1) (chain.size c) =
      chain.between (chain.size a + 1) (chain.size c) := by
    intro a b c hab hbc
    have hsize := chain.mono hab
    exact chain.between_append (by omega) (chain.mono hbc)
  rw [flatMap_of_fit hfit fun h e => chain.between (chain.size h + 1) (chain.size (e + 1)),
    batchStarts_flatMap (fun a b => chain.between (chain.size a + 1) (chain.size b)) hjoin]
  by_cases h : start ≤ tip
  · rw [if_pos h]
  · have hsize : chain.size (tip + 1) ≤ chain.size start := chain.mono (by omega)
    rw [if_neg h, chain.between_nil (by omega)]

end Owner

/-! ## Reading a range page by page -/

namespace Scan

theorem identifyUtxoOutputs_append (K : Keychain F E) (C : Consensus F E)
    (os os' : List (ChainOutput E)) :
    identifyUtxoOutputs K C (os ++ os') = (do
      let found ← identifyUtxoOutputs K C os
      let rest ← identifyUtxoOutputs K C os'
      return found ++ rest) := by
  unfold identifyUtxoOutputs
  simp only [List.mapM_append, bind_assoc, pure_bind, List.filterMap_append]

/-- With a page left for every position, reading a range ends and identifies each of its
unspent outputs once, or fails where one of them cannot be read. -/
theorem collectChainOutputs_run {env : Env F E} {chain : OutputIndex E}
    (hserves : Serves env.node chain) {last : Nat} (hlast : last < 2 ^ 64) {fuel first : Nat}
    (hfirst : first ≤ last + 1) (hfuel : last + 1 - first < fuel) (w : WalletBackend F E) :
    ∃ tick, (collectChainOutputs env last fuel first).run w =
      ((identifyUtxoOutputs env.keychain env.consensus (chain.between first last)).map (·, last),
        { w with tick := tick }) := by
  induction fuel generalizing first w with
  | zero => omega
  | succ fuel ih =>
      obtain ⟨reached, hmin, hreached, hpage⟩ := hserves.page w.tick first last hfirst
      have hask : (askNode env fun n => n.getOutputsByPmmrIndex first (some last) 1000).run w =
          (.ok (last, reached, chain.between first reached), { w with tick := w.tick + 1 }) := by
        rw [askNode, Thread.run_atomic, ask, hpage]
      rw [collectChainOutputs, Thread.bind_eq, Thread.run_andThen, Eff.run_bind_ok hask]
      simp only
      by_cases hend : last ≤ reached
      · have heq : reached = last := by omega
        subst heq
        refine ⟨w.tick + 1, ?_⟩
        cases identifyUtxoOutputs env.keychain env.consensus (chain.between first reached) with
        | error e => rfl
        | ok found =>
            simp only [Thread.bind_eq, Thread.ofExcept, Thread.andThen, if_pos hend]
            rfl
      · have hnext : u64 (reached + 1) = reached + 1 := by
          unfold u64
          omega
        obtain ⟨tick, hrest⟩ := @ih (reached + 1) (by omega) (by omega)
          { w with tick := w.tick + 1 }
        have hjoin := chain.between_append (a := first) (b := reached) (c := last) (by omega) (by omega)
        rw [← hjoin, identifyUtxoOutputs_append]
        cases hfound : identifyUtxoOutputs env.keychain env.consensus
            (chain.between first reached) with
        | error e => exact ⟨w.tick + 1, rfl⟩
        | ok found =>
            refine ⟨tick, ?_⟩
            simp only [Thread.bind_eq, Thread.ofExcept, Thread.andThen, if_neg hend, hnext]
            rw [Thread.run_andThen, Eff.run_bind, hrest]
            cases identifyUtxoOutputs env.keychain env.consensus
              (chain.between (reached + 1) last) <;> rfl

/-- Reading the range of a batch ends, with each of its unspent outputs identified once. -/
theorem collectChainOutputs_batch {env : Env F E} {chain : OutputIndex E} (hserves : Serves env.node chain)
    (hsize : ∀ h, chain.size h < 2 ^ 64) {fuel tip h e : Nat} (hfuel : chain.size (tip + 1) < fuel)
    (hle : h ≤ e) (hend : e ≤ tip) (m : WalletBackend F E) :
    ∃ tick first last,
      (env.node m.tick).heightRangeToPmmrIndices h (some e) = .ok (first, last) ∧
      first = chain.size h + 1 ∧ last = chain.size (e + 1) ∧
      (collectChainOutputs env last fuel first).run m =
        ((identifyUtxoOutputs env.keychain env.consensus (chain.between first last)).map
          (·, last), { m with tick := tick }) := by
  have hmono : chain.size h ≤ chain.size (e + 1) := chain.mono (by omega)
  have hbound : chain.size (e + 1) ≤ chain.size (tip + 1) := chain.mono (by omega)
  have hpages : chain.size (e + 1) + 1 - (chain.size h + 1) < fuel := by omega
  obtain ⟨tick, hrun⟩ := collectChainOutputs_run hserves (hsize (e + 1)) (by omega) hpages m
  exact ⟨tick, _, _, hserves.range m.tick h e hle, rfl, rfl, hrun⟩

end Scan

end GrinWallet
