import Mathlib
import QmkFirmware.DynamicKeymap.Model
import QmkFirmware.Foundations.Runs

/-! # The dynamic keymap as a partitioned store

Seen from outside the EEPROM is a table of keycodes, a table of encoder keycodes and
a block of macro bytes.  `Represents` connects the two, and every request keeps it, so
that the getters return what was stored last; the address arithmetic only matters here.
-/

namespace QmkFirmware.DynamicKeymap

open QmkFirmware.Memory QmkFirmware.Traced QmkFirmware.Runs

/-! ## Byte pairs -/

theorem joinBytes_toNat (high low : UInt8) : (joinBytes high low).toNat = 2 ^ 8 * high.toNat + low.toNat := by
  have bounded : high.toNat < 2 ^ 8 := high.toNat_lt
  have shifted : (high.toNat <<< 8) % 2 ^ 16 = high.toNat <<< 8 := by
    rw [Nat.shiftLeft_eq, Nat.mod_eq_of_lt (by omega)]
  have split : (joinBytes high low).toNat = (high.toNat <<< 8) % 2 ^ 16 ||| low.toNat := by
    simp [joinBytes]
  rw [split, shifted, ← Nat.shiftLeft_add_eq_or_of_lt low.toNat_lt, Nat.shiftLeft_eq, Nat.mul_comm]

theorem highByte_toNat (keycode : UInt16) : (highByte keycode).toNat = keycode.toNat / 2 ^ 8 := by
  have bounded : keycode.toNat < 2 ^ 16 := keycode.toNat_lt
  simp [highByte, Nat.shiftRight_eq_div_pow]
  omega

theorem lowByte_toNat (keycode : UInt16) : (lowByte keycode).toNat = keycode.toNat % 2 ^ 8 := by
  have mask : ∀ n : Nat, n &&& 255 = n % 2 ^ 8 := fun n => Nat.and_two_pow_sub_one_eq_mod n 8
  simp [lowByte, mask]

theorem joinBytes_bytes (keycode : UInt16) : joinBytes (highByte keycode) (lowByte keycode) = keycode := by
  rw [← UInt16.toNat_inj, joinBytes_toNat, highByte_toNat, lowByte_toNat]
  exact Nat.div_add_mod _ _

theorem highByte_joinBytes (high low : UInt8) : highByte (joinBytes high low) = high := by
  have small : low.toNat < 2 ^ 8 := low.toNat_lt
  rw [← UInt8.toNat_inj, highByte_toNat, joinBytes_toNat]
  omega

theorem lowByte_joinBytes (high low : UInt8) : lowByte (joinBytes high low) = low := by
  have small : low.toNat < 2 ^ 8 := low.toNat_lt
  rw [← UInt8.toNat_inj, lowByte_toNat, joinBytes_toNat]
  omega

/-! ## Requests and getters -/

/-- The calls that change the store.  Encoder functions exist only with the encoder map. -/
inductive Request (layout : Layout) where
  | setKeycode (layer row column : Nat) (keycode : UInt16)
  | setEncoder (mapped : layout.encoderMap = true) (layer encoderId : Nat) (clockwise : Bool)
      (keycode : UInt16)
  | setBuffer (offset size : Nat) (bytes : Nat → UInt8)
  | macroSetBuffer (offset size : Nat) (bytes : Nat → UInt8)
  | macroReset

section Getters

variable (layout : Layout) (eeprom : Nat → UInt8)

/-- A board whose buffer holds `bytes`. -/
def boardWith (bytes : Nat → UInt8) : Board := ⟨eeprom, bytes⟩

def getKeycode (layer row column : Nat) : UInt16 :=
  (dynamicKeymapGetKeycode (κ := Empty) layout layer row column (boardWith eeprom fun _ => 0)).value

def getEncoder (layer encoderId : Nat) (clockwise : Bool) : UInt16 :=
  (dynamicKeymapGetEncoder (κ := Empty) layout layer encoderId clockwise (boardWith eeprom fun _ => 0)).value

/-- The buffer after `dynamic_keymap_get_buffer`. -/
def getBuffer (offset size : Nat) (bytes : Nat → UInt8) : Nat → UInt8 :=
  (dynamicKeymapGetBuffer (κ := Empty) layout offset size 0 (boardWith eeprom bytes)).state.data

/-- The buffer after `dynamic_keymap_macro_get_buffer`. -/
def macroGetBuffer (offset size : Nat) (bytes : Nat → UInt8) : Nat → UInt8 :=
  (dynamicKeymapMacroGetBuffer (κ := Empty) layout offset size 0 (boardWith eeprom bytes)).state.data

end Getters

/-- The EEPROM after a request. -/
def Request.run {layout : Layout} (eeprom : Nat → UInt8) : Request layout → Nat → UInt8
  | .setKeycode layer row column keycode =>
    (dynamicKeymapSetKeycode (κ := Empty) layout layer row column keycode
      (boardWith eeprom fun _ => 0)).state.eeprom
  | .setEncoder _ layer encoderId clockwise keycode =>
    (dynamicKeymapSetEncoder (κ := Empty) layout layer encoderId clockwise keycode
      (boardWith eeprom fun _ => 0)).state.eeprom
  | .setBuffer offset size bytes =>
    (dynamicKeymapSetBuffer (κ := Empty) layout offset size 0 (boardWith eeprom bytes)).state.eeprom
  | .macroSetBuffer offset size bytes =>
    (dynamicKeymapMacroSetBuffer (κ := Empty) layout offset size 0 (boardWith eeprom bytes)).state.eeprom
  | .macroReset =>
    (dynamicKeymapMacroReset (κ := Empty) layout (boardWith eeprom fun _ => 0)).state.eeprom

/-! ## What the functions do to the EEPROM -/

section Functions

variable {κ : Type}

/-- `size` bytes at `offset` of a region, as far as they lie inside it. -/
def Covers (start regionSize offset size address : Nat) : Prop :=
  start + offset ≤ address ∧ address < start + offset + size ∧ address < start + regionSize

instance (start regionSize offset size address : Nat) :
    Decidable (Covers start regionSize offset size address) :=
  inferInstanceAs (Decidable (_ ∧ _))

/-- One round of the loop adds one byte to what is covered. -/
theorem setRegionByte_eeprom {start regionSize offset i : Nat} {eeprom bytes : Nat → UInt8} {s : Board}
    (buffer : s.data = bytes) (written : ∀ address, s.eeprom address =
      if Covers start regionSize offset i address then bytes (address - (start + offset)) else eeprom address)
    (address : Nat) :
    ((setRegionByte start regionSize offset 0 i : Action κ Unit) s).state.eeprom address =
      if Covers start regionSize offset (i + 1) address then bytes (address - (start + offset))
      else eeprom address := by
  subst buffer
  by_cases inside : offset + i < regionSize
  · have stored : ((setRegionByte start regionSize offset 0 i : Action κ Unit) s).state.eeprom =
        Function.update s.eeprom (start + offset + i) (s.data i) := by
      simp [setRegionByte, inside, load, eepromUpdateByte]
    rw [stored]
    by_cases now : address = start + offset + i
    · have covered : Covers start regionSize offset (i + 1) address := by
        unfold Covers
        omega
      rw [if_pos covered, now, Function.update_self, Nat.add_sub_cancel_left]
    · have same : Covers start regionSize offset (i + 1) address ↔ Covers start regionSize offset i address := by
        unfold Covers
        omega
      rw [Function.update_of_ne now, written, if_congr same rfl rfl]
  · have unchanged : ((setRegionByte start regionSize offset 0 i : Action κ Unit) s).state = s := by
      simp [setRegionByte, inside]
    have same : Covers start regionSize offset (i + 1) address ↔ Covers start regionSize offset i address := by
      unfold Covers
      omega
    rw [unchanged, written, if_congr same rfl rfl]

theorem setRegion_eeprom (start regionSize offset size : Nat) (eeprom bytes : Nat → UInt8) (address : Nat) :
    ((setRegion start regionSize offset size 0 : Action κ Unit) (boardWith eeprom bytes)).state.eeprom address =
      if Covers start regionSize offset size address then bytes (address - (start + offset))
      else eeprom address := by
  have none : ∀ address, ¬ Covers start regionSize offset 0 address := by
    unfold Covers
    omega
  -- the loop reads the buffer and never writes it
  have keeps : ∀ i s, s.data = bytes →
      ((setRegionByte start regionSize offset 0 i : Action κ Unit) s).state.data = bytes := by
    intro i s buffer
    by_cases inside : offset + i < regionSize
    · simp [setRegionByte, inside, load, eepromUpdateByte, buffer]
    · simp [setRegionByte, inside, buffer]
  have holds : _ ∧ ∀ address, _ = _ := loop_invariant
    (fun i s => s.data = bytes ∧ ∀ address, s.eeprom address =
      if Covers start regionSize offset i address then bytes (address - (start + offset)) else eeprom address)
    (fun i s ⟨buffer, written⟩ => ⟨keeps i s buffer, setRegionByte_eeprom buffer written⟩)
    size 0 (boardWith eeprom bytes) ⟨rfl, fun address => (if_neg (none address)).symm⟩
  rw [Nat.zero_add] at holds
  exact holds.2 address

theorem getRegion_data (start regionSize offset size : Nat) (eeprom bytes : Nat → UInt8) (i : Nat) :
    ((getRegion start regionSize offset size 0 : Action κ Unit) (boardWith eeprom bytes)).state.data i =
      if i < size then if offset + i < regionSize then eeprom (start + offset + i) else 0 else bytes i := by
  -- the first `n` bytes are copied, those outside the region as zeros
  let filled (n : Nat) (s : Board) : Prop := s.eeprom = eeprom ∧ ∀ i, s.data i =
    if i < n then if offset + i < regionSize then eeprom (start + offset + i) else 0 else bytes i
  have step : ∀ n s, filled n s →
      filled (n + 1) ((getRegionByte start regionSize offset 0 n : Action κ Unit) s).state := by
    intro n s ⟨same, copied⟩
    let byte : UInt8 := if offset + n < regionSize then s.eeprom (start + offset + n) else 0
    have next : ((getRegionByte start regionSize offset 0 n : Action κ Unit) s).state =
        ⟨s.eeprom, Function.update s.data n byte⟩ := by
      by_cases inside : offset + n < regionSize
      · simp [getRegionByte, inside, store, eepromReadByte, byte]
      · simp [getRegionByte, inside, store, byte]
    rw [next]
    refine ⟨same, fun i => ?_⟩
    by_cases now : i = n
    · subst now
      simp [byte, same]
    · have below : i < n + 1 ↔ i < n := by omega
      simp only [Function.update_of_ne now, copied, below]
  have holds : filled (0 + size) _ := loop_invariant filled step size 0 (boardWith eeprom bytes)
    ⟨rfl, fun _ => (if_neg (Nat.not_lt_zero _)).symm⟩
  rw [Nat.zero_add] at holds
  exact holds.2 i

theorem macroReset_eeprom (layout : Layout) (s : Board) (address : Nat) :
    ((dynamicKeymapMacroReset layout : Action κ Unit) s).state.eeprom address =
      if layout.macroAddr ≤ address ∧ address < layout.macroAddr + layout.macroSize then 0
      else s.eeprom address := by
  -- after `n` rounds the first `n` macro bytes are zero
  let cleared (n : Nat) (t : Board) : Prop := ∀ address, t.eeprom address =
    if layout.macroAddr ≤ address ∧ address < layout.macroAddr + n then 0 else s.eeprom address
  have step : ∀ n t, cleared n t →
      cleared (n + 1) ((eepromUpdateByte (layout.macroAddr + n) 0 : Action κ Unit) t).state := by
    intro n t before address
    change Function.update t.eeprom (layout.macroAddr + n) 0 address = _
    by_cases now : address = layout.macroAddr + n
    · subst now
      simp
    · have same : (layout.macroAddr ≤ address ∧ address < layout.macroAddr + (n + 1)) ↔
          layout.macroAddr ≤ address ∧ address < layout.macroAddr + n := by omega
      rw [Function.update_of_ne now, before, if_congr same rfl rfl]
  have holds : cleared (0 + layout.macroSize) _ := loop_invariant cleared step layout.macroSize 0 s
    fun address => (if_neg (by omega)).symm
  rw [Nat.zero_add] at holds
  exact holds address

end Functions

/-! ## Regions -/

inductive Region where
  | keymap
  | encoder
  | macros
  deriving DecidableEq, Repr

section Regions

variable (layout : Layout)

def Region.start : Region → Nat
  | .keymap => layout.eepromAddr
  | .encoder => layout.encoderAddr
  | .macros => layout.macroAddr

/-- Without the encoder map the encoders have no bytes. -/
def Region.size : Region → Nat
  | .keymap => layout.keymapSize
  | .encoder => if layout.encoderMap then layout.encoderSize else 0
  | .macros => layout.macroSize

def Region.addresses (region : Region) : Set Nat :=
  Set.Ico (region.start layout) (region.start layout + region.size layout)

/-- The macros chained together place the regions one after the other. -/
theorem regions_chained :
    Region.keymap.start layout + Region.keymap.size layout ≤ Region.encoder.start layout ∧
      Region.encoder.start layout + Region.encoder.size layout ≤ Region.macros.start layout := by
  simp only [Region.start, Region.size, Geometry.encoderAddr, Geometry.macroAddr]
  refine ⟨Nat.le_refl _, ?_⟩
  split
  next => exact Nat.le_refl _
  next => exact Nat.le_refl _

theorem regions_disjoint {first second : Region} (apart : first ≠ second) :
    Disjoint (first.addresses layout) (second.addresses layout) := by
  obtain ⟨keysFirst, encodersNext⟩ := regions_chained layout
  rw [Set.disjoint_left]
  intro address ⟨low, high⟩ ⟨low', high'⟩
  have positive : 0 < Region.macros.size layout := Nat.succ_pos _
  cases first with
  | keymap =>
    cases second with
    | keymap => exact apart rfl
    | encoder => omega
    | macros => omega
  | encoder =>
    cases second with
    | keymap => omega
    | encoder => exact apart rfl
    | macros => omega
  | macros =>
    cases second with
    | keymap => omega
    | encoder => omega
    | macros => exact apart rfl

/-- The 16-bit size of the keymap is exact, since all addresses have 16 bits. -/
theorem keymapEepromSize_eq : keymapEepromSize layout = layout.keymapSize := by
  have chained := regions_chained layout
  have room := layout.room
  have addressable := layout.addressable
  simp only [Region.start, Region.size] at chained
  exact Nat.mod_eq_of_lt (by omega)

end Regions

/-! ## Coordinates -/

theorem pair_injective {n a b a' b' : Nat} (bound : b < n) (bound' : b' < n)
    (same : a * n + b = a' * n + b') : a = a' ∧ b = b' := by
  have positive : 0 < n := Nat.zero_lt_of_lt bound
  have quotient : a = a' := by
    have left : (a * n + b) / n = a := by
      rw [Nat.add_comm, Nat.add_mul_div_right _ _ positive, Nat.div_eq_of_lt bound, Nat.zero_add]
    have right : (a' * n + b') / n = a' := by
      rw [Nat.add_comm, Nat.add_mul_div_right _ _ positive, Nat.div_eq_of_lt bound', Nat.zero_add]
    rw [← left, same, right]
  subst quotient
  exact ⟨rfl, Nat.add_left_cancel same⟩

section Coordinates

variable (layout : Layout)

def KeyInRange (layer row column : Nat) : Prop :=
  layer < layout.layerCount ∧ row < layout.rows ∧ column < layout.cols

def EncoderInRange (layer encoderId : Nat) : Prop :=
  layer < layout.layerCount ∧ encoderId < layout.numEncoders

instance (layer row column : Nat) : Decidable (KeyInRange layout layer row column) :=
  inferInstanceAs (Decidable (_ ∧ _))

instance (layer encoderId : Nat) : Decidable (EncoderInRange layout layer encoderId) :=
  inferInstanceAs (Decidable (_ ∧ _))

/-- The place of a key in the keymap. -/
def keyOffset (layer row column : Nat) : Nat := ((layer * layout.rows + row) * layout.cols + column) * 2

def encoderOffset (layer encoderId : Nat) (clockwise : Bool) : Nat :=
  (layer * layout.numEncoders + encoderId) * 4 + turnOffset clockwise

variable {layout} {layer row column encoderId : Nat} {clockwise : Bool}

theorem keyAddress_eq :
    dynamicKeymapKeyToEepromAddress layout layer row column =
      layout.eepromAddr + keyOffset layout layer row column := by
  unfold dynamicKeymapKeyToEepromAddress keyOffset
  ring

theorem encoderAddress_eq :
    dynamicKeymapEncoderToEepromAddress layout layer encoderId + turnOffset clockwise =
      layout.encoderAddr + encoderOffset layout layer encoderId clockwise := by
  unfold dynamicKeymapEncoderToEepromAddress encoderOffset
  ring

theorem keyOffset_inside (inRange : KeyInRange layout layer row column) :
    keyOffset layout layer row column + 1 < layout.keymapSize := by
  obtain ⟨layerBound, rowBound, columnBound⟩ := inRange
  -- one coordinate after the other: columns, then rows, then layers
  have columns : (layer * layout.rows + row) * layout.cols + column <
      (layer * layout.rows + row + 1) * layout.cols := by
    rw [Nat.succ_mul]
    omega
  have rows : layer * layout.rows + row + 1 ≤ layout.layerCount * layout.rows := by
    calc layer * layout.rows + row + 1 ≤ layer * layout.rows + layout.rows := by omega
      _ = (layer + 1) * layout.rows := (Nat.succ_mul _ _).symm
      _ ≤ layout.layerCount * layout.rows := Nat.mul_le_mul_right _ layerBound
  have all := Nat.mul_le_mul_right layout.cols rows
  unfold keyOffset Geometry.keymapSize
  omega

theorem encoderOffset_inside (inRange : EncoderInRange layout layer encoderId) :
    encoderOffset layout layer encoderId clockwise + 1 < layout.encoderSize := by
  obtain ⟨layerBound, encoderBound⟩ := inRange
  have encoders : layer * layout.numEncoders + encoderId + 1 ≤ layout.layerCount * layout.numEncoders := by
    calc layer * layout.numEncoders + encoderId + 1 ≤ layer * layout.numEncoders + layout.numEncoders := by
          omega
      _ = (layer + 1) * layout.numEncoders := (Nat.succ_mul _ _).symm
      _ ≤ layout.layerCount * layout.numEncoders := Nat.mul_le_mul_right _ layerBound
  have turn : turnOffset clockwise ≤ 2 := by cases clockwise <;> decide
  unfold encoderOffset Geometry.encoderSize
  omega

/-- Different keys are at least two bytes apart. -/
theorem keyOffset_injective {layer' row' column' : Nat} (inRange : KeyInRange layout layer row column)
    (inRange' : KeyInRange layout layer' row' column')
    (same : keyOffset layout layer row column = keyOffset layout layer' row' column') :
    layer = layer' ∧ row = row' ∧ column = column' := by
  obtain ⟨-, rowBound, columnBound⟩ := inRange
  obtain ⟨-, rowBound', columnBound'⟩ := inRange'
  obtain ⟨outer, columns⟩ := pair_injective columnBound columnBound'
    (Nat.eq_of_mul_eq_mul_right (by decide) same)
  obtain ⟨layers, rows⟩ := pair_injective rowBound rowBound' outer
  exact ⟨layers, rows, columns⟩

theorem encoderOffset_injective {layer' encoderId' : Nat} {clockwise' : Bool}
    (inRange : EncoderInRange layout layer encoderId) (inRange' : EncoderInRange layout layer' encoderId')
    (same : encoderOffset layout layer encoderId clockwise = encoderOffset layout layer' encoderId' clockwise') :
    layer = layer' ∧ encoderId = encoderId' ∧ clockwise = clockwise' := by
  have bound : turnOffset clockwise < 4 := by cases clockwise <;> decide
  have bound' : turnOffset clockwise' < 4 := by cases clockwise' <;> decide
  obtain ⟨outer, turns⟩ := pair_injective bound bound' same
  obtain ⟨layers, encoders⟩ := pair_injective inRange.2 inRange'.2 outer
  refine ⟨layers, encoders, ?_⟩
  revert turns
  cases clockwise <;> cases clockwise' <;> decide

end Coordinates

/-! ## Single requests -/

def pairAt (eeprom : Nat → UInt8) (address : Nat) : UInt16 :=
  joinBytes (eeprom address) (eeprom (address + 1))

def updatePair (eeprom : Nat → UInt8) (address : Nat) (keycode : UInt16) : Nat → UInt8 :=
  Function.update (Function.update eeprom address (highByte keycode)) (address + 1) (lowByte keycode)

theorem pairAt_updatePair (eeprom : Nat → UInt8) (address : Nat) (keycode : UInt16) :
    pairAt (updatePair eeprom address keycode) address = keycode := by
  simp [pairAt, updatePair, joinBytes_bytes]

theorem updatePair_outside {eeprom : Nat → UInt8} {address other : Nat} {keycode : UInt16}
    (apart : other < address ∨ address + 1 < other) : updatePair eeprom address keycode other = eeprom other := by
  rw [updatePair, Function.update_of_ne (by omega), Function.update_of_ne (by omega)]

theorem pairAt_updatePair_of_apart {eeprom : Nat → UInt8} {address other : Nat} {keycode : UInt16}
    (apart : other + 1 < address ∨ address + 1 < other) :
    pairAt (updatePair eeprom address keycode) other = pairAt eeprom other := by
  rw [pairAt, updatePair_outside (by omega), updatePair_outside (by omega), pairAt]

section Equations

variable {layout : Layout} {eeprom : Nat → UInt8}

theorem getKeycode_eq {layer row column : Nat} (inRange : KeyInRange layout layer row column) :
    getKeycode layout eeprom layer row column =
      pairAt eeprom (layout.eepromAddr + keyOffset layout layer row column) := by
  have guard : ¬ (layer ≥ layout.layerCount ∨ row ≥ layout.rows ∨ column ≥ layout.cols) := by
    unfold KeyInRange at inRange
    omega
  rw [getKeycode, dynamicKeymapGetKeycode, if_neg guard, keyAddress_eq]
  rfl

theorem getKeycode_of_not_inRange {layer row column : Nat} (outside : ¬ KeyInRange layout layer row column) :
    getKeycode layout eeprom layer row column = kcNo := by
  have guard : layer ≥ layout.layerCount ∨ row ≥ layout.rows ∨ column ≥ layout.cols := by
    unfold KeyInRange at outside
    omega
  rw [getKeycode, dynamicKeymapGetKeycode, if_pos guard]
  rfl

theorem getEncoder_eq {layer encoderId : Nat} {clockwise : Bool}
    (inRange : EncoderInRange layout layer encoderId) :
    getEncoder layout eeprom layer encoderId clockwise =
      pairAt eeprom (layout.encoderAddr + encoderOffset layout layer encoderId clockwise) := by
  have guard : ¬ (layer ≥ layout.layerCount ∨ encoderId ≥ layout.numEncoders) := by
    unfold EncoderInRange at inRange
    omega
  rw [getEncoder, dynamicKeymapGetEncoder, if_neg guard, encoderAddress_eq]
  rfl

theorem getEncoder_of_not_inRange {layer encoderId : Nat} {clockwise : Bool}
    (outside : ¬ EncoderInRange layout layer encoderId) :
    getEncoder layout eeprom layer encoderId clockwise = kcNo := by
  have guard : layer ≥ layout.layerCount ∨ encoderId ≥ layout.numEncoders := by
    unfold EncoderInRange at outside
    omega
  rw [getEncoder, dynamicKeymapGetEncoder, if_pos guard]
  rfl

theorem run_setKeycode (layer row column : Nat) (keycode : UInt16) :
    (Request.setKeycode layer row column keycode : Request layout).run eeprom =
      if KeyInRange layout layer row column then
        updatePair eeprom (layout.eepromAddr + keyOffset layout layer row column) keycode
      else eeprom := by
  rw [Request.run, dynamicKeymapSetKeycode, keyAddress_eq]
  by_cases inRange : KeyInRange layout layer row column
  · rw [if_pos inRange, if_neg (by unfold KeyInRange at inRange; omega)]
    rfl
  · rw [if_neg inRange, if_pos (by unfold KeyInRange at inRange; omega)]
    rfl

theorem run_setEncoder (mapped : layout.encoderMap = true) (layer encoderId : Nat) (clockwise : Bool)
    (keycode : UInt16) :
    (Request.setEncoder mapped layer encoderId clockwise keycode).run eeprom =
      if EncoderInRange layout layer encoderId then
        updatePair eeprom (layout.encoderAddr + encoderOffset layout layer encoderId clockwise) keycode
      else eeprom := by
  rw [Request.run, dynamicKeymapSetEncoder, encoderAddress_eq]
  by_cases inRange : EncoderInRange layout layer encoderId
  · rw [if_pos inRange, if_neg (by unfold EncoderInRange at inRange; omega)]
    rfl
  · rw [if_neg inRange, if_pos (by unfold EncoderInRange at inRange; omega)]
    rfl

theorem run_setBuffer (offset size : Nat) (bytes : Nat → UInt8) (address : Nat) :
    (Request.setBuffer offset size bytes : Request layout).run eeprom address =
      if Covers layout.eepromAddr layout.keymapSize offset size address then
        bytes (address - (layout.eepromAddr + offset))
      else eeprom address := by
  rw [Request.run, dynamicKeymapSetBuffer, setRegion_eeprom, keymapEepromSize_eq]

theorem run_macroSetBuffer (offset size : Nat) (bytes : Nat → UInt8) (address : Nat) :
    (Request.macroSetBuffer offset size bytes : Request layout).run eeprom address =
      if Covers layout.macroAddr layout.macroSize offset size address then
        bytes (address - (layout.macroAddr + offset))
      else eeprom address := by
  rw [Request.run, dynamicKeymapMacroSetBuffer, setRegion_eeprom]

/-- The region that a request is for. -/
def Request.region : Request layout → Region
  | .setKeycode .. => .keymap
  | .setEncoder .. => .encoder
  | .setBuffer .. => .keymap
  | .macroSetBuffer .. => .macros
  | .macroReset => .macros

/-- No request changes a byte outside its region. -/
theorem Request.run_outside (request : Request layout) {address : Nat}
    (outside : address ∉ request.region.addresses layout) : request.run eeprom address = eeprom address := by
  simp only [Region.addresses, Set.mem_Ico, not_and_or, Nat.not_le, Nat.not_lt] at outside
  cases request with
  | setKeycode layer row column keycode =>
    rw [run_setKeycode]
    split
    next inRange =>
      have inside := keyOffset_inside inRange
      simp only [region, Region.start, Region.size] at outside
      exact updatePair_outside (by omega)
    next => rfl
  | setEncoder mapped layer encoderId clockwise keycode =>
    rw [run_setEncoder]
    split
    next inRange =>
      have inside : encoderOffset layout layer encoderId clockwise + 1 < layout.encoderSize :=
        encoderOffset_inside inRange
      simp only [region, Region.start, Region.size, mapped, if_true] at outside
      exact updatePair_outside (by omega)
    next => rfl
  | setBuffer offset size bytes =>
    simp only [region, Region.start, Region.size] at outside
    rw [run_setBuffer, if_neg (by unfold Covers; omega)]
  | macroSetBuffer offset size bytes =>
    simp only [region, Region.start, Region.size] at outside
    rw [run_macroSetBuffer, if_neg (by unfold Covers; omega)]
  | macroReset =>
    simp only [region, Region.start, Region.size] at outside
    rw [Request.run, macroReset_eeprom, if_neg (by omega)]
    rfl

/-! ## Views -/

/-- What the getters of a region return. -/
def SameView (layout : Layout) (first second : Nat → UInt8) : Region → Prop
  | .keymap =>
    (∀ layer row column, getKeycode layout first layer row column = getKeycode layout second layer row column) ∧
      ∀ offset size bytes, getBuffer layout first offset size bytes = getBuffer layout second offset size bytes
  | .encoder => layout.encoderMap = true → ∀ layer encoderId clockwise,
    getEncoder layout first layer encoderId clockwise = getEncoder layout second layer encoderId clockwise
  | .macros => ∀ offset size bytes,
    macroGetBuffer layout first offset size bytes = macroGetBuffer layout second offset size bytes

/-- The getters of a region depend on its bytes only. -/
theorem sameView_of_agree {first second : Nat → UInt8} {region : Region}
    (agree : ∀ address ∈ region.addresses layout, first address = second address) :
    SameView layout first second region := by
  simp only [Region.addresses, Set.mem_Ico] at agree
  cases region with
  | keymap =>
    simp only [Region.start, Region.size] at agree
    refine ⟨fun layer row column => ?_, fun offset size bytes => ?_⟩
    · by_cases inRange : KeyInRange layout layer row column
      · have inside := keyOffset_inside inRange
        rw [getKeycode_eq inRange, getKeycode_eq inRange, pairAt, pairAt, agree _ (by omega), agree _ (by omega)]
      · rw [getKeycode_of_not_inRange inRange, getKeycode_of_not_inRange inRange]
    · funext i
      rw [getBuffer, getBuffer, dynamicKeymapGetBuffer, getRegion_data, getRegion_data, keymapEepromSize_eq]
      by_cases inside : offset + i < layout.keymapSize
      · rw [agree _ (by omega)]
      · rw [if_neg inside, if_neg inside]
  | encoder =>
    intro mapped layer encoderId clockwise
    simp only [Region.start, Region.size, mapped, if_true] at agree
    by_cases inRange : EncoderInRange layout layer encoderId
    · have inside : encoderOffset layout layer encoderId clockwise + 1 < layout.encoderSize :=
        encoderOffset_inside inRange
      rw [getEncoder_eq inRange, getEncoder_eq inRange, pairAt, pairAt, agree _ (by omega), agree _ (by omega)]
    · rw [getEncoder_of_not_inRange inRange, getEncoder_of_not_inRange inRange]
  | macros =>
    intro offset size bytes
    funext i
    simp only [Region.start, Region.size] at agree
    rw [macroGetBuffer, macroGetBuffer, dynamicKeymapMacroGetBuffer, getRegion_data, getRegion_data]
    by_cases inside : offset + i < layout.macroSize
    · rw [agree _ (by omega)]
    · rw [if_neg inside, if_neg inside]

/-- A request leaves the getters of the other regions alone. -/
theorem Request.run_sameView (request : Request layout) {region : Region} (other : request.region ≠ region) :
    SameView layout (request.run eeprom) eeprom region :=
  sameView_of_agree fun _ member =>
    request.run_outside fun inside => Set.disjoint_left.mp (regions_disjoint layout other) inside member

/-- The coordinates or the offset lie outside the region. -/
def Request.OutOfRange : Request layout → Prop
  | .setKeycode layer row column _ => ¬ KeyInRange layout layer row column
  | .setEncoder _ layer encoderId _ _ => ¬ EncoderInRange layout layer encoderId
  | .setBuffer offset _ _ => layout.keymapSize ≤ offset
  | .macroSetBuffer offset _ _ => layout.macroSize ≤ offset
  | .macroReset => False

theorem Request.run_of_outOfRange {request : Request layout} (outOfRange : request.OutOfRange) :
    request.run eeprom = eeprom := by
  cases request with
  | setKeycode layer row column keycode => rw [run_setKeycode, if_neg outOfRange]
  | setEncoder mapped layer encoderId clockwise keycode => rw [run_setEncoder, if_neg outOfRange]
  | setBuffer offset size bytes =>
    funext address
    rw [OutOfRange] at outOfRange
    rw [run_setBuffer, if_neg (by unfold Covers; omega)]
  | macroSetBuffer offset size bytes =>
    funext address
    rw [OutOfRange] at outOfRange
    rw [run_macroSetBuffer, if_neg (by unfold Covers; omega)]
  | macroReset => exact absurd outOfRange id

end Equations

/-! ## The abstract store -/

/-- Keycodes by coordinates, and macro bytes. -/
structure KeymapStore where
  keycode : Nat → Nat → Nat → UInt16
  encoder : Nat → Nat → Bool → UInt16
  macros : Nat → UInt8

/-- The byte at `place` after `size` bytes have been stored from `offset` on. -/
def overwrite (offset size : Nat) (bytes : Nat → UInt8) (place : Nat) (old : UInt8) : UInt8 :=
  if offset ≤ place ∧ place < offset + size then bytes (place - offset) else old

def overwriteKeycode (offset size : Nat) (bytes : Nat → UInt8) (place : Nat) (old : UInt16) : UInt16 :=
  joinBytes (overwrite offset size bytes place (highByte old))
    (overwrite offset size bytes (place + 1) (lowByte old))

section AbstractStore

variable {layout : Layout}

/-- What a request means for the tables; a buffer is a sequence of big-endian keycodes. -/
def KeymapStore.apply (store : KeymapStore) : Request layout → KeymapStore
  | .setKeycode layer row column keycode =>
    if KeyInRange layout layer row column then
      { store with keycode := fun l r c =>
          if l = layer ∧ r = row ∧ c = column then keycode else store.keycode l r c }
    else store
  | .setEncoder _ layer encoderId clockwise keycode =>
    if EncoderInRange layout layer encoderId then
      { store with encoder := fun l e t =>
          if l = layer ∧ e = encoderId ∧ t = clockwise then keycode else store.encoder l e t }
    else store
  | .setBuffer offset size bytes =>
    { store with keycode := fun l r c =>
        overwriteKeycode offset size bytes (keyOffset layout l r c) (store.keycode l r c) }
  | .macroSetBuffer offset size bytes =>
    { store with macros := fun i => overwrite offset size bytes i (store.macros i) }
  | .macroReset => { store with macros := fun _ => 0 }

/-- One byte of the macros, as the host reads it. -/
def macroByte (layout : Layout) (eeprom : Nat → UInt8) (i : Nat) : UInt8 :=
  macroGetBuffer layout eeprom i 1 (fun _ => 0) 0

structure Represents (layout : Layout) (eeprom : Nat → UInt8) (store : KeymapStore) : Prop where
  keycode : ∀ layer row column, KeyInRange layout layer row column →
    getKeycode layout eeprom layer row column = store.keycode layer row column
  encoder : layout.encoderMap = true → ∀ layer encoderId clockwise, EncoderInRange layout layer encoderId →
    getEncoder layout eeprom layer encoderId clockwise = store.encoder layer encoderId clockwise
  macros : ∀ i < layout.macroSize, macroByte layout eeprom i = store.macros i

/-- The tables as the getters return them. -/
def contents (layout : Layout) (eeprom : Nat → UInt8) : KeymapStore :=
  ⟨getKeycode layout eeprom, getEncoder layout eeprom, macroByte layout eeprom⟩

theorem represents_contents (eeprom : Nat → UInt8) : Represents layout eeprom (contents layout eeprom) :=
  ⟨fun _ _ _ _ => rfl, fun _ _ _ _ _ => rfl, fun _ _ => rfl⟩

theorem macroByte_eq {eeprom : Nat → UInt8} {i : Nat} (inside : i < layout.macroSize) :
    macroByte layout eeprom i = eeprom (layout.macroAddr + i) := by
  rw [macroByte, macroGetBuffer, dynamicKeymapMacroGetBuffer, getRegion_data, if_pos Nat.zero_lt_one,
    Nat.add_zero, if_pos inside, Nat.add_zero]

/-- A region that a request does not concern stays represented. -/
theorem Represents.keycode_of_sameView {first second : Nat → UInt8} {store : KeymapStore}
    (represents : Represents layout second store) (same : SameView layout first second .keymap) :
    ∀ layer row column, KeyInRange layout layer row column →
      getKeycode layout first layer row column = store.keycode layer row column :=
  fun layer row column inRange => (same.1 layer row column).trans (represents.keycode _ _ _ inRange)

theorem Represents.encoder_of_sameView {first second : Nat → UInt8} {store : KeymapStore}
    (represents : Represents layout second store) (same : SameView layout first second .encoder) :
    layout.encoderMap = true → ∀ layer encoderId clockwise, EncoderInRange layout layer encoderId →
      getEncoder layout first layer encoderId clockwise = store.encoder layer encoderId clockwise :=
  fun mapped layer encoderId clockwise inRange =>
    (same mapped layer encoderId clockwise).trans (represents.encoder mapped _ _ _ inRange)

theorem Represents.macros_of_sameView {first second : Nat → UInt8} {store : KeymapStore}
    (represents : Represents layout second store) (same : SameView layout first second .macros) :
    ∀ i < layout.macroSize, macroByte layout first i = store.macros i :=
  fun i inside => (congrFun (same i 1 fun _ => 0) 0).trans (represents.macros i inside)

theorem Represents.setKeycode {eeprom : Nat → UInt8} {store : KeymapStore}
    (represents : Represents layout eeprom store) (layer row column : Nat) (keycode : UInt16) :
    ∀ l r c, KeyInRange layout l r c →
      getKeycode layout ((Request.setKeycode layer row column keycode : Request layout).run eeprom) l r c =
        (store.apply (.setKeycode layer row column keycode : Request layout)).keycode l r c := by
  intro l r c inRange
  rw [run_setKeycode, KeymapStore.apply]
  by_cases valid : KeyInRange layout layer row column
  · rw [if_pos valid, if_pos valid, getKeycode_eq inRange]
    by_cases here : l = layer ∧ r = row ∧ c = column
    · obtain ⟨rfl, rfl, rfl⟩ := here
      simp [pairAt_updatePair]
    · have distinct : keyOffset layout l r c ≠ keyOffset layout layer row column :=
        fun same => here (keyOffset_injective inRange valid same)
      -- both places are even
      have apart : keyOffset layout l r c + 1 < keyOffset layout layer row column ∨
          keyOffset layout layer row column + 1 < keyOffset layout l r c := by
        unfold keyOffset at distinct ⊢
        omega
      rw [pairAt_updatePair_of_apart (by omega), ← getKeycode_eq inRange, represents.keycode _ _ _ inRange]
      simp only [if_neg here]
  · rw [if_neg valid, if_neg valid, represents.keycode _ _ _ inRange]

theorem Represents.setEncoder {eeprom : Nat → UInt8} {store : KeymapStore}
    (represents : Represents layout eeprom store) (mapped : layout.encoderMap = true) (layer encoderId : Nat)
    (clockwise : Bool) (keycode : UInt16) :
    ∀ l e t, EncoderInRange layout l e →
      getEncoder layout ((Request.setEncoder mapped layer encoderId clockwise keycode).run eeprom) l e t =
        (store.apply (.setEncoder mapped layer encoderId clockwise keycode)).encoder l e t := by
  intro l e t inRange
  rw [run_setEncoder, KeymapStore.apply]
  by_cases valid : EncoderInRange layout layer encoderId
  · rw [if_pos valid, if_pos valid, getEncoder_eq inRange]
    by_cases here : l = layer ∧ e = encoderId ∧ t = clockwise
    · obtain ⟨rfl, rfl, rfl⟩ := here
      simp [pairAt_updatePair]
    · have distinct : encoderOffset layout l e t ≠ encoderOffset layout layer encoderId clockwise :=
        fun same => here (encoderOffset_injective inRange valid same)
      -- each encoder has four bytes, two for each direction
      have apart : encoderOffset layout l e t + 1 < encoderOffset layout layer encoderId clockwise ∨
          encoderOffset layout layer encoderId clockwise + 1 < encoderOffset layout l e t := by
        unfold encoderOffset turnOffset at distinct ⊢
        cases t <;> cases clockwise <;> simp at distinct ⊢ <;> omega
      rw [pairAt_updatePair_of_apart (by omega), ← getEncoder_eq inRange,
        represents.encoder mapped _ _ _ inRange]
      simp only [if_neg here]
  · rw [if_neg valid, if_neg valid, represents.encoder mapped _ _ _ inRange]

/-- A stored buffer reaches a key through the two bytes at its place. -/
theorem Represents.setBuffer {eeprom : Nat → UInt8} {store : KeymapStore}
    (represents : Represents layout eeprom store) (offset size : Nat) (bytes : Nat → UInt8) :
    ∀ l r c, KeyInRange layout l r c →
      getKeycode layout ((Request.setBuffer offset size bytes : Request layout).run eeprom) l r c =
        (store.apply (.setBuffer offset size bytes : Request layout)).keycode l r c := by
  intro l r c inRange
  have inside := keyOffset_inside inRange
  have before := (getKeycode_eq inRange).symm.trans (represents.keycode _ _ _ inRange)
  -- the bound of the region never cuts a byte of a key off
  have byte : ∀ place < layout.keymapSize,
      (Request.setBuffer offset size bytes : Request layout).run eeprom (layout.eepromAddr + place) =
        overwrite offset size bytes place (eeprom (layout.eepromAddr + place)) := by
    intro place bound
    have covers : Covers layout.eepromAddr layout.keymapSize offset size (layout.eepromAddr + place) ↔
        offset ≤ place ∧ place < offset + size := by
      unfold Covers
      omega
    rw [run_setBuffer, overwrite, if_congr covers rfl rfl, Nat.add_sub_add_left]
  rw [getKeycode_eq inRange, pairAt, byte _ (by omega), Nat.add_assoc, byte _ (by omega), KeymapStore.apply]
  simp only [overwriteKeycode, ← before, pairAt, highByte_joinBytes, lowByte_joinBytes, Nat.add_assoc]

theorem Represents.macroSetBuffer {eeprom : Nat → UInt8} {store : KeymapStore}
    (represents : Represents layout eeprom store) (offset size : Nat) (bytes : Nat → UInt8) :
    ∀ i < layout.macroSize,
      macroByte layout ((Request.macroSetBuffer offset size bytes : Request layout).run eeprom) i =
        (store.apply (.macroSetBuffer offset size bytes : Request layout)).macros i := by
  intro i inside
  have covers : Covers layout.macroAddr layout.macroSize offset size (layout.macroAddr + i) ↔
      offset ≤ i ∧ i < offset + size := by
    unfold Covers
    omega
  have before := (macroByte_eq inside).symm.trans (represents.macros i inside)
  rw [macroByte_eq inside, run_macroSetBuffer, if_congr covers rfl rfl, Nat.add_sub_add_left, before]
  rfl

/-- Every request does to the EEPROM what it means for the tables. -/
theorem Represents.apply {eeprom : Nat → UInt8} {store : KeymapStore}
    (represents : Represents layout eeprom store) (request : Request layout) :
    Represents layout (request.run eeprom) (store.apply request) := by
  -- the region of the request changes as the table does, the others are not touched
  have other : ∀ {region}, request.region ≠ region → SameView layout (request.run eeprom) eeprom region :=
    request.run_sameView
  cases request with
  | setKeycode layer row column keycode =>
    have untouched : (store.apply (.setKeycode layer row column keycode : Request layout)).encoder =
        store.encoder ∧
        (store.apply (.setKeycode layer row column keycode : Request layout)).macros = store.macros := by
      rw [KeymapStore.apply]
      split
      next => exact ⟨rfl, rfl⟩
      next => exact ⟨rfl, rfl⟩
    refine ⟨represents.setKeycode layer row column keycode, ?_, ?_⟩
    · rw [untouched.1]
      exact represents.encoder_of_sameView (other nofun)
    · rw [untouched.2]
      exact represents.macros_of_sameView (other nofun)
  | setEncoder mapped layer encoderId clockwise keycode =>
    have untouched : (store.apply (.setEncoder mapped layer encoderId clockwise keycode)).keycode =
        store.keycode ∧
        (store.apply (.setEncoder mapped layer encoderId clockwise keycode)).macros = store.macros := by
      rw [KeymapStore.apply]
      split
      next => exact ⟨rfl, rfl⟩
      next => exact ⟨rfl, rfl⟩
    refine ⟨?_, fun _ => represents.setEncoder mapped layer encoderId clockwise keycode, ?_⟩
    · rw [untouched.1]
      exact represents.keycode_of_sameView (other nofun)
    · rw [untouched.2]
      exact represents.macros_of_sameView (other nofun)
  | setBuffer offset size bytes =>
    exact ⟨represents.setBuffer offset size bytes, represents.encoder_of_sameView (other nofun),
      represents.macros_of_sameView (other nofun)⟩
  | macroSetBuffer offset size bytes =>
    exact ⟨represents.keycode_of_sameView (other nofun),
      represents.encoder_of_sameView (other nofun), represents.macroSetBuffer offset size bytes⟩
  | macroReset =>
    refine ⟨represents.keycode_of_sameView (other nofun),
      represents.encoder_of_sameView (other nofun), fun i inside => ?_⟩
    rw [macroByte_eq inside, Request.run, macroReset_eeprom, if_pos (by omega)]
    rfl

def runRequests (eeprom : Nat → UInt8) (requests : List (Request layout)) : Nat → UInt8 :=
  requests.foldl Request.run eeprom

/-- After any sequence of requests the getters return what was stored last, the regions
    do not overlap and requests for one leave the getters of the others alone, and a
    request outside its region changes nothing. -/
theorem keymap_store_faithful (layout : Layout) (eeprom : Nat → UInt8) (requests : List (Request layout)) :
    Represents layout (runRequests eeprom requests)
        (requests.foldl KeymapStore.apply (contents layout eeprom)) ∧
      (∀ first second : Region, first ≠ second →
        Disjoint (first.addresses layout) (second.addresses layout)) ∧
      (∀ (current : Nat → UInt8) (request : Request layout) (region : Region), request.region ≠ region →
        SameView layout (request.run current) current region) ∧
      (∀ (current : Nat → UInt8) (request : Request layout) (address : Nat),
        address ∉ request.region.addresses layout → request.run current address = current address) ∧
      ∀ (current : Nat → UInt8) (request : Request layout), request.OutOfRange →
        request.run current = current :=
  ⟨foldl_simulation (fun _ _ request represents => represents.apply request) (represents_contents eeprom)
      requests,
    fun _ _ apart => regions_disjoint layout apart, fun _ request _ other => request.run_sameView other,
    fun _ request _ outside => request.run_outside outside, fun _ _ => Request.run_of_outOfRange⟩

end AbstractStore

end QmkFirmware.DynamicKeymap
