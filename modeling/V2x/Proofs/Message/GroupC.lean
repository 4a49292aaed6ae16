import V2x.Proofs.Message.StatusMessage
import V2x.Schema.GroupC

/-!
# Extensions of region group C

What the eight extensions say that have a grammar, how they are written, and that their decoders recover
them (`recovers_parts`). Names, bounds and order are those of the extensions, given here apart from their
schemas.
-/

namespace V2x

/-! ## Enumerations with their labels -/

/-- A root has the label that stands in its place. An addition has none. -/
def Enumerated.label (labels : List String) : Enumerated labels.length → Option String
  | .root i => some (labels.get i)
  | .addition _ _ => none

theorem Enumerated.getElem?_value (labels : List String) :
    ∀ e : Enumerated labels.length, labels[e.value]? = e.label labels
  | .root i => List.getElem?_eq_getElem i.2
  | .addition _ _ => List.getElem?_eq_none (Nat.le_add_right _ _)

def Item.labelled (name : String) (labels : List String) (e : Enumerated labels.length) : Item :=
  .field name (.enumerated e.value (e.label labels)) nofun [] e.steps

namespace GroupC

/-! ## What the extensions say -/

/-- A number in two's complement. -/
abbrev Signed (width : Nat) := Within (-2 ^ (width - 1)) (2 ^ (width - 1) - 1)

structure Offset (width : Nat) where
  x : Signed width
  y : Signed width

def Offset.item (name : String) {width : Nat} (o : Offset width) : Item :=
  .sequence name [.required (.number "x" o.x), .required (.number "y" o.y)]

/-- The forms of an offset, and how many bits each of its numbers has. -/
def forms : List (String × Nat) :=
  [("node-XY1", 10), ("node-XY2", 11), ("node-XY3", 12), ("node-XY4", 13), ("node-XY5", 14),
   ("node-XY6", 16)]

inductive NodeOffset
  | xy (form : Fin forms.length) (o : Offset forms[form].2)
  | latLon (lon : Within (-1799999999) 1800000001) (lat : Within (-900000000) 900000001)
  | regional (e : Extension)

def NodeOffset.item (name : String) : NodeOffset → Item
  | .xy form o => .choice name [.index form 8 false] (o.item forms[form].1)
  | .latLon lon lat =>
    .choice name [.index 6 8 false] <|
      .sequence "node-LatLon" [.required (.number "lon" lon), .required (.number "lat" lat)]
  | .regional e =>
    .choice name [.index 7 8 false] <|
      .sequence "regional" [.required (e.item .nodeOffsetPointXY)]

structure StationPosition where
  station : Within 0 4294967295
  lane : Option (Within 0 255)
  node : Option NodeOffset
  time : Option (Within 0 60000)
  additions : Option Additions

def StationPosition.item (p : StationPosition) : Item :=
  .extensibleSequence "ItsStationPosition" p.additions
    [.required (.number "stationID" p.station),
     .optional (p.lane.map (.number "laneID")),
     .optional (p.node.map (NodeOffset.item "nodeXY")),
     .optional (p.time.map (.number "timeReference"))]

structure ManeuverAssist where
  positions : Option (Counted 1 5 StationPosition)
  additions : Option Additions

def ManeuverAssist.item (m : ManeuverAssist) : Item :=
  .extensibleSequence "ConnectionManeuverAssist-addGrpC" m.additions
    [.optional (m.positions.map (.list "itsStationPosition" StationPosition.item))]

/-- It has no attributes, which could not be decoded. -/
structure TrajectoryNode where
  delta : NodeOffset
  additions : Option Additions

def TrajectoryNode.item (n : TrajectoryNode) : Item :=
  .extensibleSequence "NodeXY" n.additions [.required (n.delta.item "delta"), .optional none]

structure Trajectory where
  nodes : Counted 2 63 TrajectoryNode
  connection : Within 0 255
  additions : Option Additions

def Trajectory.item (t : Trajectory) : Item :=
  .extensibleSequence "ConnectionTrajectory-addGrpC" t.additions
    [.required (.list "nodes" TrajectoryNode.item t.nodes),
     .required (.number "connectionID" t.connection)]

def requests : List String :=
  ["preRequest", "mainRequest", "doorCloseRequest", "cancelRequest", "emergencyRequest"]

structure Control where
  request : Enumerated requests.length
  additions : Option Additions

def Control.item (c : Control) : Item :=
  .extensibleSequence "Control-addGrpC" c.additions
    [.required (.labelled "ptvRequest" requests c.request)]

structure Prioritization where
  station : Within 0 4294967295
  priorState : Enumerated StatusMessage.responseStatuses.length
  signalGroup : Within 0 255
  additions : Option Additions

def Prioritization.item (p : Prioritization) : Item :=
  .extensibleSequence "PrioritizationResponse" p.additions
    [.required (.number "stationID" p.station),
     .required (.labelled "priorState" StatusMessage.responseStatuses p.priorState),
     .required (.number "signalGroup" p.signalGroup)]

structure IntersectionState where
  prioritizations : Option (Counted 1 10 Prioritization)
  additions : Option Additions

def IntersectionState.item (i : IntersectionState) : Item :=
  .extensibleSequence "IntersectionState-addGrpC" i.additions
    [.optional (i.prioritizations.map (.list "activePrioritizations" Prioritization.item))]

structure SignalHead where
  node : NodeOffset
  nodeZ : Within (-12700) 12800
  signalGroup : Within 0 255
  additions : Option Additions

def SignalHead.item (h : SignalHead) : Item :=
  .extensibleSequence "SignalHeadLocation" h.additions
    [.required (h.node.item "nodeXY"),
     .required (.number "nodeZ" h.nodeZ),
     .required (.number "signalGroupID" h.signalGroup)]

structure MapData where
  signalHeads : Option (Counted 1 64 SignalHead)
  additions : Option Additions

def MapData.item (m : MapData) : Item :=
  .extensibleSequence "MapData-addGrpC" m.additions
    [.optional (m.signalHeads.map (.list "signalHeadLocations" SignalHead.item))]

structure Position where
  altitude : Altitude
  additions : Option Additions

def Position.item (p : Position) : Item :=
  .extensibleSequence "Position3D-addGrpC" p.additions
    [.required (p.altitude.item "altitude")]

def emissions : List String :=
  ["euro1", "euro2", "euro3", "euro4", "euro5", "euro6"]

structure Restriction where
  emission : Option (Enumerated emissions.length)
  fuel : Option (Within 0 15)
  additions : Option Additions

def Restriction.item (r : Restriction) : Item :=
  .extensibleSequence "RestrictionUserType-addGrpC" r.additions
    [.optional (r.emission.map (.labelled "emission" emissions)),
     .optional (r.fuel.map (.number "fuel"))]

def rejectionReasons : List String :=
  ["unknown", "exceptionalCondition", "maxWaitingTimeExceeded", "ptPriorityDisabled",
   "higherPTPriorityGranted", "vehicleTrackingUnknown"]

structure StatusPackage where
  schedule : Option (Within (-122) 121)
  reason : Option (Enumerated rejectionReasons.length)
  additions : Option Additions

def StatusPackage.item (p : StatusPackage) : Item :=
  .extensibleSequence "SignalStatusPackage-addGrpC" p.additions
    [.optional (p.schedule.map (.number "synchToSchedule")),
     .optional (p.reason.map (.labelled "rejectedReason" rejectionReasons))]

end GroupC

/-- What an extension of the group says. -/
inductive GroupC
  | maneuverAssist (m : GroupC.ManeuverAssist)
  | trajectory (t : GroupC.Trajectory)
  | control (c : GroupC.Control)
  | intersectionState (i : GroupC.IntersectionState)
  | mapData (m : GroupC.MapData)
  | position (p : GroupC.Position)
  | restriction (r : GroupC.Restriction)
  | statusPackage (p : GroupC.StatusPackage)

namespace GroupC

def schema : GroupC → Schema
  | .maneuverAssist _ => Schema.GroupC.connectionManeuverAssist
  | .trajectory _ => Schema.GroupC.connectionTrajectory
  | .control _ => Schema.GroupC.control
  | .intersectionState _ => Schema.GroupC.intersectionState
  | .mapData _ => Schema.GroupC.mapData
  | .position _ => Schema.GroupC.position3D
  | .restriction _ => Schema.GroupC.restrictionUserType
  | .statusPackage _ => Schema.GroupC.signalStatusPackage

def item : GroupC → Item
  | .maneuverAssist m => m.item
  | .trajectory t => t.item
  | .control c => c.item
  | .intersectionState i => i.item
  | .mapData m => m.item
  | .position p => p.item
  | .restriction r => r.item
  | .statusPackage p => p.item

def parts (g : GroupC) : List Item.Part :=
  [.required g.item]

def items (g : GroupC) : List Item :=
  Item.message g.parts

/-! ## Their decoders recover them -/

open Dissect Components V2x.Field

variable {resolve : Resolver}

theorem recovers_labelled (name : String) {labels : List String} (e : Enumerated labels.length) :
    (decode resolve (.enumerated name labels true)).Recovers resolve
      [.labelled name labels e] :=
  recovers_enumerated_of name e.finds (e.getElem?_value labels)

theorem recovers_offset (name : String) {width : Nat}
    (hb : Per.Read.Bounds (-2 ^ (width - 1)) (2 ^ (width - 1) - 1)) (o : Offset width) :
    ((Schema.offset name width).decode resolve).Recovers resolve [o.item name] :=
  recovers_sequence name <|
    .required (recovers_integer "x" hb o.x) <|
    .required (recovers_integer "y" hb o.y)
    recovers_done

/-- Alternatives for the forms of an offset, before others. -/
def precede (forms : List (String × Nat)) (more : Alternatives) : Alternatives :=
  forms.foldr (fun form => .or (Schema.offset form.1 form.2)) more

theorem decode_precede (type : String) (extensible : Bool) (index : Nat)
    (forms : List (String × Nat)) (more : Alternatives) (form : Fin forms.length) :
    (precede forms more).decode resolve type extensible index form =
      (Schema.offset forms[form].1 forms[form].2).decode resolve := by
  induction forms with
  | nil => exact form.elim0
  | cons first forms ih =>
    cases form using Fin.cases with
    | zero => rfl
    | succ form => exact ih form

theorem bounds_form : ∀ form : Fin forms.length,
    Per.Read.Bounds (-2 ^ (forms[form].2 - 1)) (2 ^ (forms[form].2 - 1) - 1) := by
  decide

theorem recovers_nodeOffset (name : String) : ∀ o : NodeOffset,
    ((Schema.nodeOffset name).decode resolve).Recovers resolve [o.item name]
  | .xy form o => by
    have hform : form.1 < 8 := Nat.lt_trans form.2 (by decide)
    -- the forms stand first among the alternatives, each in the place of its index
    refine recovers_choice (a := precede forms _)
      (finds_encodings (Per.Read.finds_index hform false)) ?_
    rw [decode_precede]
    exact recovers_offset forms[form].1 (bounds_form form) o
  | .latLon lon lat =>
    recovers_choice (finds_encodings (Per.Read.finds_index (by decide) false)) <|
      recovers_sequence "node-LatLon" <|
        .required (recovers_integer "lon" (by decide) lon) <|
        .required (recovers_integer "lat" (by decide) lat)
        recovers_done
  | .regional e =>
    recovers_choice (finds_encodings (Per.Read.finds_index (by decide) false)) <|
      recovers_sequence "regional" <|
        .required (recovers_extension .nodeOffsetPointXY e) recovers_done

theorem recovers_ofField {f : Field} {item : Item} (h : (f.decode resolve).Recovers resolve [item]) :
    (Schema.ofField f).Recovers resolve [.required item] :=
  .required h recovers_done

theorem recovers_maneuverAssist (m : ManeuverAssist) :
    Schema.GroupC.connectionManeuverAssist.Recovers resolve [.required m.item] :=
  recovers_ofField <| recovers_extensibleSequence _ m.additions <|
    .optional (recovers_sequenceOf _ (by decide) fun p : StationPosition =>
      recovers_extensibleSequence _ p.additions <|
        .required (recovers_integer _ (by decide) p.station) <|
        .optional (recovers_integer _ (by decide)) p.lane <|
        .optional (recovers_nodeOffset _) p.node <|
        .optional (recovers_integer _ (by decide)) p.time
        recovers_done) m.positions
    recovers_done

theorem recovers_trajectory (t : Trajectory) :
    Schema.GroupC.connectionTrajectory.Recovers resolve [.required t.item] :=
  recovers_ofField <| recovers_extensibleSequence _ t.additions <|
    .required (recovers_sequenceOf _ (by decide) (fun n : TrajectoryNode =>
      recovers_extensibleSequence _ n.additions <|
        .required (recovers_nodeOffset _ n.delta) <|
        .omitted recovers_done) t.nodes) <|
    .required (recovers_integer _ (by decide) t.connection)
    recovers_done

theorem recovers_control (c : Control) :
    Schema.GroupC.control.Recovers resolve [.required c.item] :=
  recovers_ofField <| recovers_extensibleSequence _ c.additions <|
    .required (recovers_labelled _ c.request) recovers_done

theorem recovers_intersectionState (i : IntersectionState) :
    Schema.GroupC.intersectionState.Recovers resolve [.required i.item] :=
  recovers_ofField <| recovers_extensibleSequence _ i.additions <|
    .optional (recovers_sequenceOf _ (by decide) fun p : Prioritization =>
      recovers_extensibleSequence _ p.additions <|
        .required (recovers_integer _ (by decide) p.station) <|
        .required (recovers_labelled _ p.priorState) <|
        .required (recovers_integer _ (by decide) p.signalGroup)
        recovers_done) i.prioritizations
    recovers_done

theorem recovers_mapData (m : MapData) :
    Schema.GroupC.mapData.Recovers resolve [.required m.item] :=
  recovers_ofField <| recovers_extensibleSequence _ m.additions <|
    .optional (recovers_sequenceOf _ (by decide) fun h : SignalHead =>
      recovers_extensibleSequence _ h.additions <|
        .required (recovers_nodeOffset _ h.node) <|
        .required (recovers_integer _ (by decide) h.nodeZ) <|
        .required (recovers_integer _ (by decide) h.signalGroup)
        recovers_done) m.signalHeads
    recovers_done

theorem recovers_position (p : Position) :
    Schema.GroupC.position3D.Recovers resolve [.required p.item] :=
  recovers_ofField <| recovers_extensibleSequence _ p.additions <|
    .required (recovers_altitude _ p.altitude) recovers_done

theorem recovers_restriction (r : Restriction) :
    Schema.GroupC.restrictionUserType.Recovers resolve [.required r.item] :=
  recovers_ofField <| recovers_extensibleSequence _ r.additions <|
    .optional (recovers_labelled _) r.emission <|
    .optional (recovers_integer _ (by decide)) r.fuel
    recovers_done

theorem recovers_statusPackage (p : StatusPackage) :
    Schema.GroupC.signalStatusPackage.Recovers resolve [.required p.item] :=
  recovers_ofField <| recovers_extensibleSequence _ p.additions <|
    .optional (recovers_integer _ (by decide)) p.schedule <|
    .optional (recovers_labelled _) p.reason
    recovers_done

theorem recovers_parts : ∀ g : GroupC, g.schema.Recovers resolve g.parts
  | .maneuverAssist m => recovers_maneuverAssist m
  | .trajectory t => recovers_trajectory t
  | .control c => recovers_control c
  | .intersectionState i => recovers_intersectionState i
  | .mapData m => recovers_mapData m
  | .position p => recovers_position p
  | .restriction r => recovers_restriction r
  | .statusPackage p => recovers_statusPackage p

end GroupC

end V2x
