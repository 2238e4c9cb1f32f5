import QmkFirmware.Foundations.Memory

/-! # Timers of the RGB matrix

The idle timer and the history of hits of `quantum/rgb_matrix/rgb_matrix.c`, with
`RGB_MATRIX_TIMEOUT` and with reactive effects.
-/

namespace QmkFirmware.RgbMatrix

open QmkFirmware.Memory

abbrev Led := UInt8

def noLed : Led := 255

structure LedPoint where
  x : UInt8
  y : UInt8
deriving DecidableEq

structure Config where
  /-- The size of the arrays of hits; their count is a byte. -/
  ledHitsToRemember : Nat
  ledHitsToRemember_lt : ledHitsToRemember < 256
  /-- This half keeps the history: it is the master, or the matrix is split. -/
  isKeyboardMaster : Bool
  /-- `RGB_MATRIX_KEYRELEASES`: the hits are the releases, and else the presses. -/
  keyreleases : Bool
  mapRowColumnToLedKb : UInt8 → UInt8 → List Led
  matrixCo : UInt8 → UInt8 → Led
  point : Led → LedPoint
  /-- The array for the lights of a key is of that size, too. -/
  leds_le : ∀ row col, (mapRowColumnToLedKb row col).length + (if matrixCo row col ≠ noLed then 1 else 0) ≤
    ledHitsToRemember

def Config.mapRowColumnToLed (config : Config) (row col : UInt8) : List Led :=
  config.mapRowColumnToLedKb row col ++
    if config.matrixCo row col ≠ noLed then [config.matrixCo row col] else []

/-- `last_hit_t`, with the four arrays at the indexes below `LED_HITS_TO_REMEMBER`. -/
structure LastHit where
  count : Nat
  x : Nat → UInt8
  y : Nat → UInt8
  index : Nat → Led
  tick : Nat → UInt16

structure State where
  suspendState : Bool
  enable : Bool
  mode : UInt8
  anykeyTimer : UInt32
  timeout : UInt32
  timerBuffer : UInt32
  lastHitBuffer : LastHit

/-- The clock is read for the elapsed time, and again for the next time. -/
structure Reading where
  elapsed : UInt32
  next : UInt32

/-! ## Hits -/

namespace LastHit

/-- The arrays move down by the number of new hits. -/
def makeRoom (size ledCount : Nat) (hits : LastHit) : LastHit :=
  if size < hits.count + ledCount then
    { count := size - ledCount
      x := blit hits.x 0 (slice hits.x ledCount (size - ledCount))
      y := blit hits.y 0 (slice hits.y ledCount (size - ledCount))
      tick := blit hits.tick 0 (slice hits.tick ledCount (size - ledCount))
      index := blit hits.index 0 (slice hits.index ledCount (size - ledCount)) }
  else hits

def addHit (config : Config) (hits : LastHit) (led : Led) : LastHit where
  count := hits.count + 1
  x := Function.update hits.x hits.count (config.point led).x
  y := Function.update hits.y hits.count (config.point led).y
  index := Function.update hits.index hits.count led
  tick := Function.update hits.tick hits.count 0

/-- One turn of the loop over the hits; the difference is one of 32 bits. -/
def ageHit (deltaTime : UInt32) (hits : LastHit) (i : Nat) : LastHit :=
  if 65535 - deltaTime < (hits.tick i).toUInt32 then { hits with count := hits.count - 1 }
  else { hits with tick := Function.update hits.tick i ((hits.tick i).toUInt32 + deltaTime).toUInt16 }

/-- The count of the loop is the one before it. -/
def age (deltaTime : UInt32) (hits : LastHit) : LastHit :=
  (List.range hits.count).foldl (ageHit deltaTime) hits

end LastHit

def Config.hitLeds (config : Config) (row col : UInt8) (pressed : Bool) : List Led :=
  if pressed ≠ config.keyreleases then config.mapRowColumnToLed row col else []

def processRgbMatrix (config : Config) (row col : UInt8) (pressed : Bool) (s : State) : State :=
  if config.isKeyboardMaster then
    let leds := config.hitLeds row col pressed
    let room := s.lastHitBuffer.makeRoom config.ledHitsToRemember leds.length
    { s with anykeyTimer := 0, lastHitBuffer := leds.foldl (LastHit.addHit config) room }
  else s

/-- The hits after `rgb_matrix_init`. -/
def rgbMatrixInit (config : Config) (s : State) : State :=
  { s with
    lastHitBuffer :=
      { s.lastHitBuffer with
        count := 0
        tick := fun i => if i < config.ledHitsToRemember then 65535 else s.lastHitBuffer.tick i } }

/-! ## The task -/

namespace State

/-- `sync_timer_elapsed32`. -/
def deltaTime (s : State) (reading : Reading) : UInt32 := reading.elapsed - s.timerBuffer

def rgbTaskTimers (s : State) (reading : Reading) : State :=
  let deltaTime := s.deltaTime reading
  { s with
    timerBuffer := reading.next
    -- the sum is compared after it has been cut to 32 bits
    anykeyTimer := if s.anykeyTimer + deltaTime ≤ 0xFFFFFFFF then s.anykeyTimer + deltaTime else s.anykeyTimer
    lastHitBuffer := s.lastHitBuffer.age deltaTime }

/-- `rgb_matrix_timeouted`. -/
def timeouted (s : State) : Prop := s.timeout < s.anykeyTimer

instance (s : State) : Decidable s.timeouted := inferInstanceAs (Decidable (_ < _))

/-- The effect that `rgb_matrix_task` renders; zero is `RGB_MATRIX_NONE`. -/
def effect (s : State) : UInt8 :=
  let suspendBacklight := s.suspendState = true ∨ s.timeouted
  if suspendBacklight ∨ s.enable = false then 0 else s.mode

def rgbMatrixTask (s : State) (reading : Reading) : State × UInt8 :=
  let s := s.rgbTaskTimers reading
  (s, s.effect)

end State

end QmkFirmware.RgbMatrix
