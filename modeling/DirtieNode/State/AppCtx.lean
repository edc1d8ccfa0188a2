import Mathlib.Data.List.TakeWhile
import DirtieNode.Library.Memory
import DirtieNode.Util.Ntp

/-!
# The application context

`APP_CTX_T` as it is between two steps of the program. The four 64-byte character arrays are one
block of memory, because the writers of one of them can run into the next. The log slots are in
`Logger.Logs`.
-/

namespace DirtieNode.State

open CString Util

/-- `LOOP_STATE_E`. -/
inductive LoopState where
  | flashInit
  | wifiConfig
  | flashWrite
  | mqttInit
  | senseInit
  | ntpSync
  | mqttPublish
  | mqttListen
  | battListen
  | senseListen
  | logdump
  | throttle
  | loopStateCount
  deriving DecidableEq, Repr

/-- The position of an enumerator, which is its value in C. -/
def LoopState.toNat : LoopState → Nat
  | .flashInit => 0
  | .wifiConfig => 1
  | .flashWrite => 2
  | .mqttInit => 3
  | .senseInit => 4
  | .ntpSync => 5
  | .mqttPublish => 6
  | .mqttListen => 7
  | .battListen => 8
  | .senseListen => 9
  | .logdump => 10
  | .throttle => 11
  | .loopStateCount => 12

/-! ## The character arrays -/

/-- The bytes of `wifi_ssid`, `wifi_pass`, `prv_token` and `hub_loc`, with a terminator at their
end. -/
structure CtxText where
  bytes : List UInt8
  size : bytes.length = 256
  ends : bytes[255]? = some 0

/-- A block of memory in place of the arrays, if it still ends in a terminator. -/
def CtxText.ofBytes (bytes : List UInt8) : Option CtxText :=
  if h : bytes.length = 256 ∧ bytes[255]? = some 0 then some ⟨bytes, h.1, h.2⟩ else none

/-- The place of `wifi_ssid` in the block. -/
def wifiSsid : Nat := 0

/-- The place of `wifi_pass` in the block. -/
def wifiPass : Nat := 64

/-- The place of `prv_token` in the block. -/
def prvToken : Nat := 128

/-- The place of `hub_loc` in the block. -/
def hubLoc : Nat := 192

/-- The C string that starts at an offset. -/
def CtxText.str (text : CtxText) (offset : Nat) : List UInt8 :=
  (text.bytes.drop offset).takeWhile (· != 0)

/-- Each array starts a string that ends inside the block. -/
theorem CtxText.str_holds (text : CtxText) {offset : Nat} (h : offset < 256) :
    Holds (text.bytes.drop offset) (text.str offset) := by
  have hmem : (0 : UInt8) ∈ text.bytes.drop offset := by
    have hends : (text.bytes.drop offset)[255 - offset]? = some 0 := by
      rw [List.getElem?_drop, Nat.add_sub_cancel' (by omega), text.ends]
    exact List.mem_of_getElem? hends
  exact holds_takeWhile hmem

/-- The bytes from an offset on are those of its string, and its terminator. -/
theorem CtxText.bytes_str (text : CtxText) {offset i : Nat} (hoffset : offset < 256)
    (hi : i ≤ (text.str offset).length) :
    text.bytes[offset + i]? = (text.str offset ++ [0])[i]? := by
  obtain ⟨rest, hrest, _⟩ := text.str_holds hoffset
  rw [← List.getElem?_drop, hrest, List.append_cons,
    List.getElem?_append_left (by rw [List.length_append, List.length_singleton]; omega)]

/-- The bytes of a string and its terminator determine the string at an offset. -/
theorem CtxText.str_congr {text source : CtxText} {offset : Nat} (hoffset : offset < 256)
    (h : ∀ i ≤ (source.str offset).length, text.bytes[offset + i]? = source.bytes[offset + i]?) :
    text.str offset = source.str offset := by
  refine (text.str_holds hoffset).unique
    ⟨text.bytes.drop (offset + ((source.str offset).length + 1)), ?_,
      (source.str_holds hoffset).nul_free⟩
  have htake : (text.bytes.drop offset).take ((source.str offset).length + 1) =
      source.str offset ++ [0] := by
    refine List.ext_getElem? fun i ↦ ?_
    rw [List.getElem?_take]
    split
    · rename_i hi
      rw [List.getElem?_drop, h i (by omega), source.bytes_str hoffset (by omega)]
    · rw [List.getElem?_eq_none (by rw [List.length_append, List.length_singleton]; omega)]
  rw [List.append_cons, ← htake, ← List.drop_drop, List.take_append_drop]

/-- The string at an offset as a value. -/
def CtxText.cstr (text : CtxText) (offset : Nat) : CStr where
  bytes := text.str offset
  nul_free := by
    intro hmem
    have := List.mem_takeWhile_imp hmem
    simp at this
  fits := by
    have hlen : (text.str offset).length ≤ (text.bytes.drop offset).length :=
      (List.takeWhile_prefix _).length_le
    rw [List.length_drop, text.size] at hlen
    omega

/-! ## The context -/

/-- `MQTT_CLIENT_T`, with its lwIP client and whether `mqtt_set_inpub_callback` was called. -/
structure MqttClient where
  remoteAddr : Nat := 0
  mqttClient : Option Nat := none
  inpub : Bool := false
  deriving DecidableEq

/-- `APP_CTX_T`. The defaults are those of `calloc`, and times are in microseconds since boot. -/
structure AppCtx where
  text : CtxText
  loopState : LoopState := .flashInit
  setPublish : Bool := false
  flashInitd : Bool := false
  wifiConfigd : Bool := false
  flashWritten : Bool := false
  mqttInitd : Bool := false
  senseInitd : Bool := false
  ntpSyncd : Bool := false
  mqttClient : Option MqttClient := none
  ntpState : Option Ntp := none
  capacitance : UInt16 := 0
  temperature : UInt16 := 0
  cprev : UInt16 := 0
  tprev : UInt16 := 0
  reset : Bool := false
  resetPressedTs : Nat := 0
  resetPressed : Bool := false
  blinkTs : Nat := 0
  blinkOn : Bool := false

/-- `HUB_LOC`, a compile-time string for the last array. -/
structure Hub where
  loc : CStr
  fits : loc.bytes.length < 64

/-- The arrays after `strcpy` of `HUB_LOC` into zeroed memory. -/
def bootBytes (hub : Hub) : List UInt8 :=
  List.replicate hubLoc 0 ++ (hub.loc.bytes ++ [0]) ++
    List.replicate (64 - (hub.loc.bytes.length + 1)) 0

/-- `strcpy` puts the string and its terminator into the last array. -/
theorem bootBytes_eq (hub : Hub) :
    memcpy (List.replicate 256 0) hubLoc (hub.loc.bytes ++ [0]) = some (bootBytes hub) := by
  have hfits := hub.fits
  have hlen : (hub.loc.bytes ++ [0]).length ≤ 64 := by
    rw [List.length_append, List.length_singleton]
    omega
  have hcopy := memcpy_replicate (List.replicate hubLoc 0) (hub.loc.bytes ++ [0]) 64 0 hlen
  rw [List.replicate_append_replicate, List.length_replicate, List.length_append,
    List.length_singleton] at hcopy
  exact hcopy

/-- The last byte of the block is a terminator. -/
theorem bootBytes_ends (hub : Hub) : (bootBytes hub)[255]? = some 0 := by
  have hfits := hub.fits
  have hstart : (List.replicate hubLoc (0 : UInt8)).length = 192 := List.length_replicate
  rw [bootBytes, List.append_assoc, List.getElem?_append_right (by omega), hstart,
    List.append_assoc, List.getElem?_append_right (by omega)]
  -- the byte is the terminator of a string of 63 bytes, or one of the zeros behind it
  rw [List.singleton_append, ← List.replicate_succ, List.getElem?_replicate, if_pos (by omega)]

/-- The context of `main` before the loop. -/
def bootText (hub : Hub) : CtxText where
  bytes := bootBytes hub
  size := by
    rw [memcpy_length (bootBytes_eq hub), List.length_replicate]
  ends := bootBytes_ends hub

end DirtieNode.State
