import QmkFirmware.ActionLayer.Model
import QmkFirmware.Foundations.Runs

/-! # Presses and releases agree on the layer

A write to the cache stores the whole layer for its entry and leaves every other entry
alone.  Each position of the matrix has an entry of its own, and each encoder has one
entry for its two directions.
-/

namespace QmkFirmware.ActionLayer

open QmkFirmware.Bits QmkFirmware.Sweep

/-! ## Entries of a cache -/

theorem updateBit_local (layer : BitVec 8) (entryNumber : Nat) :
    Local (updateBit layer entryNumber) (fun cache bit => cache (entryNumber / charBit) bit)
      (fun bit byte => byte ^^^ ((if layer.getLsbD bit then -1 else 0) ^^^ byte) &&&
        1#8 <<< (entryNumber % charBit)) where
  own cache bit := by
    simp only [updateBit, Cache.set, and_mask_ne_zero, and_self, if_true]
  other cache bit other apart := by
    simp only [updateBit, Cache.set]
    rw [if_neg (fun same => apart same.2.symm)]

theorem updateBit_otherIdx (layer : BitVec 8) {entryNumber idx : Nat}
    (apart : idx ≠ entryNumber / charBit) (bits : List Nat) (cache : Cache) :
    bits.foldl (updateBit layer entryNumber) cache idx = cache idx := by
  induction bits generalizing cache with
  | nil => rfl
  | cons bit bits ih =>
    rw [List.foldl_cons, ih]
    funext b
    simp only [updateBit, Cache.set]
    rw [if_neg (fun same => apart same.1)]

/-- The bit of an entry. -/
def entryBit (cache : Cache) (entryNumber bit : Nat) : Bool :=
  (cache (entryNumber / charBit) bit).getLsbD (entryNumber % charBit)

theorem updateImpl_own {maxLayerBits bit : Nat} (inside : bit < maxLayerBits) (layer : BitVec 8)
    (entryNumber : Nat) (cache : Cache) :
    entryBit (updateSourceLayersCacheImpl maxLayerBits layer entryNumber cache) entryNumber bit =
      layer.getLsbD bit := by
  have swept := (updateBit_local layer entryNumber).foldl_of_mem List.nodup_range
    (List.mem_range.mpr inside) cache
  have bound : entryNumber % charBit < 8 := Nat.mod_lt _ (by decide)
  rw [entryBit, updateSourceLayersCacheImpl, swept, getLsbD_xor_masked _ _ bound, if_pos rfl]
  cases layer.getLsbD bit with
  | false => simp
  | true =>
    have ones : (-1 : BitVec 8) = .allOnes 8 := rfl
    rw [if_pos rfl, ones, BitVec.getLsbD_allOnes, decide_eq_true bound]

theorem updateImpl_other {entryNumber other : Nat} (apart : other ≠ entryNumber) (maxLayerBits : Nat)
    (layer : BitVec 8) (cache : Cache) (bit : Nat) :
    entryBit (updateSourceLayersCacheImpl maxLayerBits layer entryNumber cache) other bit =
      entryBit cache other bit := by
  rw [entryBit, updateSourceLayersCacheImpl]
  by_cases sameIdx : other / charBit = entryNumber / charBit
  · -- another bit of the same byte
    rw [sameIdx]
    by_cases inside : bit < maxLayerBits
    · have swept := (updateBit_local layer entryNumber).foldl_of_mem List.nodup_range
        (List.mem_range.mpr inside) cache
      have bound : entryNumber % charBit < 8 := Nat.mod_lt _ (by decide)
      -- two entries that share the byte differ in the bit
      have bits : other % charBit ≠ entryNumber % charBit := by
        intro sameBit
        have quotient := Nat.div_add_mod other charBit
        rw [sameIdx, sameBit, Nat.div_add_mod] at quotient
        exact apart quotient.symm
      rw [swept, getLsbD_xor_masked _ _ bound, if_neg bits, entryBit, sameIdx]
    · have kept := (updateBit_local layer entryNumber).foldl_of_notMem
        (fun member => inside (List.mem_range.mp member)) cache
      rw [kept, entryBit, sameIdx]
  · rw [updateBit_otherIdx layer sameIdx, entryBit]

theorem readImpl_bit (entryNumber : Nat) (cache : Cache) {maxLayerBits : Nat} (narrow : maxLayerBits ≤ 8)
    (j : Nat) :
    (readSourceLayersCacheImpl maxLayerBits entryNumber cache).getLsbD j =
      (decide (j < maxLayerBits) && entryBit cache entryNumber j) := by
  rw [readSourceLayersCacheImpl]
  induction maxLayerBits with
  | zero => simp
  | succ n ih =>
    rw [List.range_succ, List.foldl_append, List.foldl_cons, List.foldl_nil, readBit]
    simp only [and_mask_ne_zero]
    rw [BitVec.getLsbD_or, ih (Nat.le_of_succ_le narrow), BitVec.getLsbD_shiftLeft]
    -- the round for bit `n` decides bit `n` of the result and no other
    cases Nat.lt_trichotomy j n with
    | inl below => simp [below, Nat.lt_succ_of_lt below]
    | inr rest =>
      cases rest with
      | inl same =>
        subst same
        have wide : j < 8 := narrow
        by_cases set : entryBit cache entryNumber j = true
        · simp [wide, set, show (cache (entryNumber / charBit) j).getLsbD (entryNumber % charBit) = true from set]
        · simp [set, show ¬(cache (entryNumber / charBit) j).getLsbD (entryNumber % charBit) = true from set]
      | inr above =>
        have position : 0 < j - n := Nat.sub_pos_of_lt above
        have outside : ¬j < n + 1 := by omega
        split <;> simp [outside, Nat.not_lt_of_gt above, BitVec.getLsbD_one, Nat.ne_of_gt position]

/-- A layer is read as it was written. -/
theorem readImpl_updateImpl {maxLayerBits : Nat} (narrow : maxLayerBits ≤ 8) {layer : BitVec 8}
    (small : layer.toNat < 2 ^ maxLayerBits) (entryNumber : Nat) (cache : Cache) :
    readSourceLayersCacheImpl maxLayerBits entryNumber
      (updateSourceLayersCacheImpl maxLayerBits layer entryNumber cache) = layer := by
  refine BitVec.eq_of_getLsbD_eq fun j _ => ?_
  rw [readImpl_bit entryNumber _ narrow]
  by_cases inside : j < maxLayerBits
  · rw [updateImpl_own inside, decide_eq_true inside, Bool.true_and]
  · -- bits that are not stored are clear, since the layer is below `2 ^ maxLayerBits`
    have clear : layer.getLsbD j = false := by
      refine Nat.testBit_lt_two_pow (small.trans_le ?_)
      exact Nat.pow_le_pow_right (by decide) (Nat.le_of_not_lt inside)
    rw [clear, decide_eq_false inside, Bool.false_and]

theorem readImpl_updateImpl_other {entryNumber other : Nat} (apart : other ≠ entryNumber)
    {maxLayerBits : Nat} (narrow : maxLayerBits ≤ 8) (layer : BitVec 8) (cache : Cache) :
    readSourceLayersCacheImpl maxLayerBits other
      (updateSourceLayersCacheImpl maxLayerBits layer entryNumber cache) =
      readSourceLayersCacheImpl maxLayerBits other cache := by
  refine BitVec.eq_of_getLsbD_eq fun j _ => ?_
  rw [readImpl_bit other _ narrow, readImpl_bit other _ narrow, updateImpl_other apart]

/-! ## Positions -/

section

variable {keyboard : Keyboard}

theorem Keyboard.narrow (keyboard : Keyboard) : keyboard.maxLayerBits ≤ 8 :=
  keyboard.bits_le.trans (by decide)

/-- The positions that have an entry: the matrix, and the encoders if they are mapped. -/
def Keyboard.HasEntry (keyboard : Keyboard) (key : KeyPos) : Prop :=
  keyboard.InMatrix key ∨ keyboard.IsEncoder key ∧ key.col.toNat < keyboard.numEncoders

/-- The two directions of one encoder. -/
def Keyboard.Opposite (keyboard : Keyboard) (key other : KeyPos) : Prop :=
  ¬keyboard.InMatrix key ∧ ¬keyboard.InMatrix other ∧ keyboard.IsEncoder key ∧ keyboard.IsEncoder other ∧
    key.col = other.col ∧ key.row ≠ other.row

theorem entryNumber_eq {key : KeyPos} (inside : keyboard.InMatrix key) :
    keyboard.entryNumber key = key.row.toNat * keyboard.matrixCols + key.col.toNat := by
  have rows := inside.1.trans_le keyboard.rows_le
  have cols := inside.2.trans_le keyboard.cols_le
  have area : key.row.toNat * keyboard.matrixCols ≤ 255 * 255 :=
    Nat.mul_le_mul (Nat.le_of_lt rows) keyboard.cols_le
  rw [Keyboard.entryNumber, Nat.mod_eq_of_lt (by omega), Nat.mod_eq_of_lt (by omega)]

theorem entryNumber_injective {key other : KeyPos} (inside : keyboard.InMatrix key)
    (otherInside : keyboard.InMatrix other)
    (same : keyboard.entryNumber other = keyboard.entryNumber key) : other = key := by
  rw [entryNumber_eq inside, entryNumber_eq otherInside] at same
  have positive : 0 < keyboard.matrixCols := Nat.zero_lt_of_lt inside.2
  -- column and row are remainder and quotient of the entry number
  have cols : other.col.toNat = key.col.toNat := by
    have remainder := congrArg (· % keyboard.matrixCols) same
    simpa [Nat.mul_add_mod_self_right, Nat.mod_eq_of_lt inside.2, Nat.mod_eq_of_lt otherInside.2]
      using remainder
  have rows : other.row.toNat = key.row.toNat := by
    have product : other.row.toNat * keyboard.matrixCols = key.row.toNat * keyboard.matrixCols := by omega
    exact Nat.eq_of_mul_eq_mul_right positive product
  cases key
  cases other
  simp only [KeyPos.mk.injEq]
  exact ⟨UInt8.toNat_inj.mp cols, UInt8.toNat_inj.mp rows⟩

theorem read_update_same {key : KeyPos} (entry : keyboard.HasEntry key) {layer : BitVec 8}
    (small : layer.toNat < 2 ^ keyboard.maxLayerBits) (caches : Caches) :
    readSourceLayersCache keyboard key (updateSourceLayersCache keyboard key layer caches) = layer := by
  rw [readSourceLayersCache, updateSourceLayersCache]
  by_cases inside : keyboard.InMatrix key
  · rw [if_pos inside, if_pos inside]
    exact readImpl_updateImpl keyboard.narrow small _ _
  · have encoder := (entry.resolve_left inside).1
    rw [if_neg inside, if_neg inside, if_pos encoder, if_pos encoder]
    exact readImpl_updateImpl keyboard.narrow small _ _

/-- A write leaves the entries of all other positions alone, but for the opposite direction
of the same encoder. -/
theorem read_update_other {key other : KeyPos} (apart : other ≠ key)
    (separate : ¬keyboard.Opposite key other) (layer : BitVec 8) (caches : Caches) :
    readSourceLayersCache keyboard other (updateSourceLayersCache keyboard key layer caches) =
      readSourceLayersCache keyboard other caches := by
  rw [readSourceLayersCache, readSourceLayersCache, updateSourceLayersCache]
  by_cases inside : keyboard.InMatrix key <;> by_cases otherInside : keyboard.InMatrix other
  · rw [if_pos inside, if_pos otherInside, if_pos otherInside]
    exact readImpl_updateImpl_other
      (fun same => apart (entryNumber_injective inside otherInside same)) keyboard.narrow _ _
  · rw [if_pos inside, if_neg otherInside, if_neg otherInside]
  · rw [if_neg inside, if_pos otherInside, if_pos otherInside]
    split <;> rfl
  · rw [if_neg inside, if_neg otherInside, if_neg otherInside]
    by_cases encoder : keyboard.IsEncoder key <;> by_cases otherEncoder : keyboard.IsEncoder other
    · rw [if_pos encoder, if_pos otherEncoder, if_pos otherEncoder]
      refine readImpl_updateImpl_other (fun same => ?_) keyboard.narrow _ _
      -- the entry of an encoder is its column, whatever the direction
      have cols : key.col = other.col := (UInt8.toNat_inj.mp same).symm
      refine separate ⟨inside, otherInside, encoder, otherEncoder, cols, fun rows => apart ?_⟩
      cases key
      cases other
      simp_all
    · rw [if_pos encoder, if_neg otherEncoder, if_neg otherEncoder]
    · rw [if_neg encoder]
    · rw [if_neg encoder]

/-- The layer that a press resolves is one that the cache can hold. -/
theorem layerSwitchGetLayer_lt (keyboard : Keyboard) (actionForKey : ActionForKey)
    (states : LayerStates keyboard) (key : KeyPos) :
    layerSwitchGetLayer keyboard actionForKey states key < 2 ^ keyboard.maxLayerBits := by
  simp only [layerSwitchGetLayer]
  cases found : (List.range keyboard.maxLayer).reverse.find? _ with
  | none => exact Nat.two_pow_pos _
  | some i =>
    have member := List.mem_of_find?_eq_some found
    rw [List.mem_reverse, List.mem_range] at member
    exact member.trans_le keyboard.layers_le

end

/-! ## Runs -/

/-- A press or release with the keymap of that moment, or a change of the layers. -/
inductive LayerOp (keyboard : Keyboard) where
  | record (pressed : Bool) (key : KeyPos) (actionForKey : ActionForKey)
  | layers (states : LayerStates keyboard)

structure LayerSystem (keyboard : Keyboard) where
  states : LayerStates keyboard
  caches : Caches

section

variable {keyboard : Keyboard}

def LayerSystem.step (s : LayerSystem keyboard) : LayerOp keyboard → LayerSystem keyboard
  | .record pressed key actionForKey =>
    { s with caches := (storeOrGetAction keyboard false actionForKey s.states pressed key s.caches).2 }
  | .layers states => { s with states := states }

/-- The system before the operation with index `n`. -/
def before (start : LayerSystem keyboard) (ops : List (LayerOp keyboard)) (n : Nat) : LayerSystem keyboard :=
  (ops.take n).foldl LayerSystem.step start

/-- The press `p` and the release `r` of a key belong together, and no key that disturbs it
is pressed between them. -/
structure Matching (disturbs : KeyPos → KeyPos → Prop) (ops : List (LayerOp keyboard)) (key : KeyPos)
    (p r : Nat) (pressActions releaseActions : ActionForKey) : Prop where
  order : p < r
  pressed : ops[p]? = some (.record true key pressActions)
  released : ops[r]? = some (.record false key releaseActions)
  undisturbed : ∀ n, p < n → n < r → ∀ other actions, ops[n]? = some (.record true other actions) →
    other ≠ key ∧ ¬disturbs key other

/-- A release stands for the action of the layer that the matching press has resolved. -/
def ReleasesAgree (start : LayerSystem keyboard) (disturbs : KeyPos → KeyPos → Prop) : Prop :=
  ∀ ops key p r pressActions releaseActions, keyboard.HasEntry key →
    Matching disturbs ops key p r pressActions releaseActions →
    (storeOrGetAction keyboard false releaseActions (before start ops r).states false key
      (before start ops r).caches).1 =
      releaseActions (layerSwitchGetLayer keyboard pressActions (before start ops p).states key) key

theorem before_succ {start : LayerSystem keyboard} {ops : List (LayerOp keyboard)} {n : Nat}
    {op : LayerOp keyboard} (found : ops[n]? = some op) :
    before start ops (n + 1) = (before start ops n).step op := by
  rw [before, List.take_add_one, found, Option.toList_some, List.foldl_append]
  rfl

/-- An operation that is no press of the key, nor of the opposite direction, keeps its entry. -/
theorem step_keeps {key : KeyPos} (s : LayerSystem keyboard) {op : LayerOp keyboard}
    (undisturbed : ∀ other actions, op = .record true other actions →
      other ≠ key ∧ ¬keyboard.Opposite key other) :
    readSourceLayersCache keyboard key (s.step op).caches = readSourceLayersCache keyboard key s.caches := by
  cases op with
  | layers states => rfl
  | record pressed other actions =>
    cases pressed with
    | false => rfl
    | true =>
      -- only a press writes
      obtain ⟨apart, separate⟩ := undisturbed other actions rfl
      refine read_update_other apart.symm (fun opposite => separate ?_) _ _
      obtain ⟨inside, otherInside, encoder, otherEncoder, cols, rows⟩ := opposite
      exact ⟨otherInside, inside, otherEncoder, encoder, cols.symm, rows.symm⟩

/-- From the press on, the entry holds the layer that the press has resolved. -/
theorem cached_since_press (start : LayerSystem keyboard) {ops : List (LayerOp keyboard)} {key : KeyPos}
    {p r : Nat} {pressActions releaseActions : ActionForKey} (entry : keyboard.HasEntry key)
    (matching : Matching keyboard.Opposite ops key p r pressActions releaseActions) {n : Nat}
    (order : p + 1 ≤ n) (within : n ≤ r) :
    (readSourceLayersCache keyboard key (before start ops n).caches).toNat =
      layerSwitchGetLayer keyboard pressActions (before start ops p).states key := by
  -- from the operation behind the press on, up to the release
  induction n, order using Nat.le_induction with
  | base =>
    have small := layerSwitchGetLayer_lt keyboard pressActions (before start ops p).states key
    have byte : 2 ^ keyboard.maxLayerBits ≤ 2 ^ 8 := Nat.pow_le_pow_right (by decide) keyboard.narrow
    have value := (BitVec.toNat_ofNat _ 8).trans (Nat.mod_eq_of_lt (small.trans_le byte))
    rw [before_succ matching.pressed]
    refine Eq.trans (congrArg BitVec.toNat (read_update_same entry ?_ _)) value
    rw [sourceLayer, if_pos rfl, value]
    exact small
  | succ n order ih =>
    have inside : n < ops.length := by
      obtain ⟨bound, -⟩ := List.getElem?_eq_some_iff.mp matching.released
      omega
    have found := List.getElem?_eq_getElem inside
    rw [before_succ found, step_keeps]
    · exact ih (Nat.le_of_succ_le within)
    · intro other actions same
      exact matching.undisturbed n order within other actions (found.trans (congrArg some same))

end

/-- What the cache promises: releases agree with their presses, a layer is read as it was
written, and a write keeps the layers of all other keys.  The two directions of one encoder
share an entry. -/
structure Agreement (keyboard : Keyboard) (start : LayerSystem keyboard) : Prop where
  releases : ReleasesAgree start keyboard.Opposite
  stored : ∀ key, keyboard.HasEntry key → ∀ layer : BitVec 8, layer.toNat < 2 ^ keyboard.maxLayerBits →
    ∀ caches, readSourceLayersCache keyboard key (updateSourceLayersCache keyboard key layer caches) = layer
  framed : ∀ key other, other ≠ key → ¬keyboard.Opposite key other → ∀ layer caches,
    readSourceLayersCache keyboard other (updateSourceLayersCache keyboard key layer caches) =
      readSourceLayersCache keyboard other caches

theorem source_layers_agree (keyboard : Keyboard) (start : LayerSystem keyboard) : Agreement keyboard start where
  releases ops key p r pressActions releaseActions entry matching := by
    have cached := cached_since_press start entry matching matching.order (Nat.le_refl r)
    simp only [storeOrGetAction, sourceLayer]
    exact congrArg (releaseActions · key) cached
  stored _ entry _ small caches := read_update_same entry small caches
  framed _ _ apart separate layer caches := read_update_other apart separate layer caches

/-- A keyboard with an encoder. -/
def knobKeyboard : Keyboard where
  matrixRows := 6
  matrixCols := 17
  encoderMapEnable := true
  numEncoders := 1
  maxLayerBits := 4
  maxLayer := 16
  rows_le := by decide
  cols_le := by decide
  bits_le := by decide
  layers_le := by decide

/-- A keymap whose actions name the layer, with no transparent keys. -/
def numberedLayers : ActionForKey := fun layer _ => .ofNat (0x100 + layer)

def onLayer (layer : Nat) : LayerStates knobKeyboard := ⟨1#16 <<< layer, 1⟩

def knobStart : LayerSystem knobKeyboard := ⟨onLayer 1, ⟨fun _ _ => 0, fun _ _ => 0⟩⟩

/-- A key is pressed on layer 1, a second one on layer 0, and then the first is released. -/
def twoKeys (first second : KeyPos) : List (LayerOp knobKeyboard) :=
  [.record true first numberedLayers, .layers (onLayer 0), .record true second numberedLayers,
    .record false first numberedLayers]

/-- Two neighbours in one byte of the cache. -/
theorem neighbours_agree :
    (storeOrGetAction knobKeyboard false numberedLayers (before knobStart (twoKeys ⟨3, 0⟩ ⟨4, 0⟩) 3).states
      false ⟨3, 0⟩ (before knobStart (twoKeys ⟨3, 0⟩ ⟨4, 0⟩) 3).caches).1 =
      numberedLayers (layerSwitchGetLayer knobKeyboard numberedLayers (onLayer 1) ⟨3, 0⟩) ⟨3, 0⟩ := by
  have agreement := source_layers_agree knobKeyboard knobStart
  refine agreement.releases (twoKeys ⟨3, 0⟩ ⟨4, 0⟩) ⟨3, 0⟩ 0 3 numberedLayers numberedLayers
    (.inl (by decide)) ⟨by decide, rfl, rfl, ?_⟩
  intro n lower upper other actions found
  obtain rfl | rfl : n = 1 ∨ n = 2 := by omega
  · simp [twoKeys] at found
  · obtain ⟨rfl, -⟩ : (⟨4, 0⟩ : KeyPos) = other ∧ numberedLayers = actions := by
      simpa [twoKeys] using found
    exact ⟨by decide, fun opposite => absurd opposite.2.2.2.2.1 (by decide)⟩

/-- The knob is turned clockwise on layer 1 and back on layer 0 before the first release. -/
theorem turnedBack_disagrees : ¬ReleasesAgree knobStart (fun _ _ => False) := by
  intro agree
  have matching : Matching (fun _ _ => False) (twoKeys ⟨0, 253⟩ ⟨0, 252⟩) ⟨0, 253⟩ 0 3 numberedLayers
      numberedLayers := by
    refine ⟨by decide, rfl, rfl, ?_⟩
    intro n lower upper other actions found
    obtain rfl | rfl : n = 1 ∨ n = 2 := by omega
    · simp [twoKeys] at found
    · obtain ⟨rfl, -⟩ : (⟨0, 252⟩ : KeyPos) = other ∧ numberedLayers = actions := by
        simpa [twoKeys] using found
      exact ⟨by decide, not_false⟩
  have same := agree _ ⟨0, 253⟩ 0 3 numberedLayers numberedLayers (.inr (by decide)) matching
  exact absurd same (by decide)

end QmkFirmware.ActionLayer
