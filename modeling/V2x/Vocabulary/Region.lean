/-!
# Regional extensions

Extensible data frames leave a slot for content that a region defines. Region and slot together say
which grammar the content has.
-/

namespace V2x

/-- The place in a data frame that a regional extension fills. -/
inductive Slot
  | advisorySpeed
  | computedLane
  | connectionManeuverAssist
  | genericLane
  | intersectionGeometry
  | intersectionState
  | laneAttributes
  | laneDataAttribute
  | mapData
  | movementEvent
  | movementState
  | nodeAttributeSetLL
  | nodeAttributeSetXY
  | nodeOffsetPointLL
  | nodeOffsetPointXY
  | position3D
  | requestorDescription
  | requestorPositionVector
  | requestorType
  | restrictionUserType
  | roadSegment
  | rtcmCorrections
  | signalControlZone
  | signalRequest
  | signalRequestMessage
  | signalRequestPackage
  | signalStatus
  | signalStatusMessage
  | signalStatusPackage
  | spat
  deriving DecidableEq, Repr

namespace Slot

def all : List Slot :=
  [.advisorySpeed, .computedLane, .connectionManeuverAssist, .genericLane,
   .intersectionGeometry, .intersectionState, .laneAttributes, .laneDataAttribute, .mapData,
   .movementEvent, .movementState, .nodeAttributeSetLL, .nodeAttributeSetXY,
   .nodeOffsetPointLL, .nodeOffsetPointXY, .position3D, .requestorDescription,
   .requestorPositionVector, .requestorType, .restrictionUserType, .roadSegment,
   .rtcmCorrections, .signalControlZone, .signalRequest, .signalRequestMessage,
   .signalRequestPackage, .signalStatus, .signalStatusMessage, .signalStatusPackage, .spat]

def number (slot : Slot) : Nat :=
  all.idxOf slot

def ofNumber? (n : Nat) : Option Slot :=
  all[n]?

/-- The name of the set of extensions that the slot admits. -/
def name : Slot → String
  | .advisorySpeed => "Reg-AdvisorySpeed"
  | .computedLane => "Reg-ComputedLane"
  | .connectionManeuverAssist => "Reg-ConnectionManeuverAssist"
  | .genericLane => "Reg-GenericLane"
  | .intersectionGeometry => "Reg-IntersectionGeometry"
  | .intersectionState => "Reg-IntersectionState"
  | .laneAttributes => "Reg-LaneAttributes"
  | .laneDataAttribute => "Reg-LaneDataAttribute"
  | .mapData => "Reg-MapData"
  | .movementEvent => "Reg-MovementEvent"
  | .movementState => "Reg-MovementState"
  | .nodeAttributeSetLL => "Reg-NodeAttributeSetLL"
  | .nodeAttributeSetXY => "Reg-NodeAttributeSetXY"
  | .nodeOffsetPointLL => "Reg-NodeOffsetPointLL"
  | .nodeOffsetPointXY => "Reg-NodeOffsetPointXY"
  | .position3D => "Reg-Position3D"
  | .requestorDescription => "Reg-RequestorDescription"
  | .requestorPositionVector => "Reg-RequestorPositionVector"
  | .requestorType => "Reg-RequestorType"
  | .restrictionUserType => "Reg-RestrictionUserType"
  | .roadSegment => "Reg-RoadSegment"
  | .rtcmCorrections => "Reg-RTCMcorrections"
  | .signalControlZone => "Reg-SignalControlZone"
  | .signalRequest => "Reg-SignalRequest"
  | .signalRequestMessage => "Reg-SignalRequestMessage"
  | .signalRequestPackage => "Reg-SignalRequestPackage"
  | .signalStatus => "Reg-SignalStatus"
  | .signalStatusMessage => "Reg-SignalStatusMessage"
  | .signalStatusPackage => "Reg-SignalStatusPackage"
  | .spat => "Reg-SPAT"

theorem number_injective {a b : Slot} : a.number = b.number → a = b := by
  cases a <;> cases b <;> decide

theorem number_lt (slot : Slot) : slot.number < 30 := by
  cases slot <;> decide

end Slot

/-- Region numbers; zero says that there is none. -/
abbrev Region := UInt8

namespace Region

def unspecified : Region := 0

/-- The region whose extensions the standard grammars describe. -/
def groupC : Region := 3

def label? (region : Region) : Option String :=
  ["noRegion", "addGrpA", "addGrpB", "addGrpC"][region.toNat]?

end Region

/-- What an extension's grammar is looked up by. -/
structure ExtensionKey where
  region : Region
  slot : Slot
  deriving DecidableEq, Repr

namespace ExtensionKey

/-- Both parts in one number. -/
def packed (key : ExtensionKey) : Nat :=
  key.region.toNat * 2 ^ 16 + key.slot.number

theorem packed_injective {a b : ExtensionKey} (h : a.packed = b.packed) : a = b := by
  obtain ⟨region, slot⟩ := a
  obtain ⟨region', slot'⟩ := b
  have hs := slot.number_lt
  have hs' := slot'.number_lt
  simp only [packed] at h
  rw [UInt8.toNat.inj (a := region) (b := region') (by omega),
    Slot.number_injective (a := slot) (b := slot') (by omega)]

def render (key : ExtensionKey) : String :=
  match Region.label? key.region with
  | some label => s!"{label}/{key.slot.name}"
  | none => s!"region {key.region}/{key.slot.name}"

end ExtensionKey

end V2x
