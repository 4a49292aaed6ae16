import V2x.Proofs.Message.Recovery
import V2x.Schema.Denm

/-!
# Notifications

What a notification without further details says, how it is written, and that its decoder recovers it
(`recovers_message`). Names, bounds and order are those of the message, given here apart from its schema.
-/

namespace V2x

namespace Notification

/-! ## What a notification says -/

structure ActionId where
  originatingStation : Within 0 4294967295
  sequenceNumber : Within 0 65535

def ActionId.item (a : ActionId) : Item :=
  .sequence "actionID"
    [.required (.number "originatingStationID" a.originatingStation),
     .required (.number "sequenceNumber" a.sequenceNumber)]

structure Ellipse where
  semiMajorConfidence : Within 0 4095
  semiMinorConfidence : Within 0 4095
  semiMajorOrientation : Within 0 3601

def Ellipse.item (e : Ellipse) : Item :=
  .sequence "positionConfidenceEllipse"
    [.required (.number "semiMajorConfidence" e.semiMajorConfidence),
     .required (.number "semiMinorConfidence" e.semiMinorConfidence),
     .required (.number "semiMajorOrientation" e.semiMajorOrientation)]

structure ReferencePosition where
  latitude : Within (-900000000) 900000001
  longitude : Within (-1800000000) 1800000001
  ellipse : Ellipse
  altitude : Altitude

def ReferencePosition.item (p : ReferencePosition) : Item :=
  .sequence "eventPosition"
    [.required (.number "latitude" p.latitude),
     .required (.number "longitude" p.longitude),
     .required p.ellipse.item,
     .required (p.altitude.item "altitude")]

def terminations : List String :=
  ["isCancellation", "isNegation"]

def relevanceDistances : List String :=
  ["lessThan50m", "lessThan100m", "lessThan200m", "lessThan500m", "lessThan1000m", "lessThan5km",
   "lessThan10km", "over10km"]

def trafficDirections : List String :=
  ["allTrafficDirections", "upstreamTraffic", "downstreamTraffic", "oppositeTraffic"]

structure Management where
  actionId : ActionId
  detectionTime : Within 0 4398046511103
  referenceTime : Within 0 4398046511103
  termination : Option (Fin terminations.length)
  eventPosition : ReferencePosition
  relevanceDistance : Option (Fin relevanceDistances.length)
  relevanceTrafficDirection : Option (Fin trafficDirections.length)
  validityDuration : Option (Within 0 86400)
  transmissionInterval : Option (Within 1 10000)
  stationType : Within 0 255
  additions : Option Additions

/-- A notification that does not say for how long it is valid is shown to be so for ten minutes. -/
def Management.item (m : Management) : Item :=
  .extensibleSequence "management" m.additions
    [.required m.actionId.item,
     .required (.number "detectionTime" m.detectionTime),
     .required (.number "referenceTime" m.referenceTime),
     .optional (m.termination.map (.named "termination" terminations)),
     .required m.eventPosition.item,
     .optional (m.relevanceDistance.map (.named "relevanceDistance" relevanceDistances)),
     .optional (m.relevanceTrafficDirection.map
       (.named "relevanceTrafficDirection" trafficDirections)),
     .defaulted (m.validityDuration.map (.number "validityDuration"))
       (.absent "validityDuration" 600 "default value"),
     .optional (m.transmissionInterval.map (.number "transmissionInterval")),
     .required (.number "stationType" m.stationType)]

structure DeltaPosition where
  latitude : Within (-131071) 131072
  longitude : Within (-131071) 131072
  altitude : Within (-12700) 12800

def DeltaPosition.item (name : String) (p : DeltaPosition) : Item :=
  .sequence name
    [.required (.number "deltaLatitude" p.latitude),
     .required (.number "deltaLongitude" p.longitude),
     .required (.number "deltaAltitude" p.altitude)]

structure EventPoint where
  position : DeltaPosition
  deltaTime : Option (Extensible 1 65535)
  informationQuality : Within 0 7

def EventPoint.item (p : EventPoint) : Item :=
  .sequence "EventPoint"
    [.required (p.position.item "eventPosition"),
     .optional (p.deltaTime.map (.extensible "eventDeltaTime")),
     .required (.number "informationQuality" p.informationQuality)]

structure Situation where
  informationQuality : Within 0 7
  eventType : CauseCode
  linkedCause : Option CauseCode
  eventHistory : Option (Counted 1 23 EventPoint)
  additions : Option Additions

def Situation.item (s : Situation) : Item :=
  .extensibleSequence "situation" s.additions
    [.required (.number "informationQuality" s.informationQuality),
     .required (s.eventType.item "eventType"),
     .optional (s.linkedCause.map (CauseCode.item "linkedCause")),
     .optional (s.eventHistory.map (.list "eventHistory" EventPoint.item))]

structure Speed where
  value : Within 0 16383
  confidence : Within 1 127

def Speed.item (s : Speed) : Item :=
  .sequence "eventSpeed"
    [.required (.number "speedValue" s.value), .required (.number "speedConfidence" s.confidence)]

structure Heading where
  value : Within 0 3601
  confidence : Within 1 127

def Heading.item (h : Heading) : Item :=
  .sequence "eventPositionHeading"
    [.required (.number "headingValue" h.value),
     .required (.number "headingConfidence" h.confidence)]

structure PathPoint where
  position : DeltaPosition
  deltaTime : Option (Extensible 1 65535)

def PathPoint.item (p : PathPoint) : Item :=
  .sequence "PathPoint"
    [.required (p.position.item "pathPosition"),
     .optional (p.deltaTime.map (.extensible "pathDeltaTime"))]

def roadTypes : List String :=
  ["urban-NoStructuralSeparationToOppositeLanes", "urban-WithStructuralSeparationToOppositeLanes",
   "nonUrban-NoStructuralSeparationToOppositeLanes",
   "nonUrban-WithStructuralSeparationToOppositeLanes"]

structure Location where
  speed : Option Speed
  heading : Option Heading
  traces : Counted 1 7 (Counted 0 40 PathPoint)
  roadType : Option (Fin roadTypes.length)
  additions : Option Additions

def Location.item (l : Location) : Item :=
  .extensibleSequence "location" l.additions
    [.optional (l.speed.map Speed.item),
     .optional (l.heading.map Heading.item),
     .required (.list "traces" (.list "PathHistory" PathPoint.item) l.traces),
     .optional (l.roadType.map (.named "roadType" roadTypes))]

end Notification

structure Notification where
  management : Notification.Management
  situation : Option Notification.Situation
  location : Option Notification.Location

namespace Notification

/-- The last component would be the container of further details. -/
def parts (n : Notification) : List Item.Part :=
  [.required n.management.item,
   .optional (n.situation.map Situation.item),
   .optional (n.location.map Location.item),
   .optional none]

def items (n : Notification) : List Item :=
  Item.message n.parts

/-! ## Its decoder recovers it -/

open Dissect Components Schema V2x.Field

variable {resolve : Resolver}

theorem recovers_actionId (a : ActionId) :
    (decode resolve (.sequence "actionID" false <|
      .required (.integer "originatingStationID" 0 (2 ^ 32 - 1)) <|
      .required (.integer "sequenceNumber" 0 65535) .done)).Recovers resolve [a.item] :=
  recovers_sequence _ <|
    .required (recovers_integer _ (by decide) a.originatingStation) <|
    .required (recovers_integer _ (by decide) a.sequenceNumber)
    recovers_done

theorem recovers_ellipse (e : Ellipse) :
    (decode resolve (.sequence "positionConfidenceEllipse" false <|
      .required (.integer "semiMajorConfidence" 0 4095) <|
      .required (.integer "semiMinorConfidence" 0 4095) <|
      .required (.integer "semiMajorOrientation" 0 3601) .done)).Recovers resolve [e.item] :=
  recovers_sequence _ <|
    .required (recovers_integer _ (by decide) e.semiMajorConfidence) <|
    .required (recovers_integer _ (by decide) e.semiMinorConfidence) <|
    .required (recovers_integer _ (by decide) e.semiMajorOrientation)
    recovers_done

theorem recovers_referencePosition (p : ReferencePosition) :
    ((Denm.referencePosition "eventPosition").decode resolve).Recovers resolve [p.item] :=
  recovers_sequence _ <|
    .required (recovers_integer _ (by decide) p.latitude) <|
    .required (recovers_integer _ (by decide) p.longitude) <|
    .required (recovers_ellipse p.ellipse) <|
    .required (recovers_altitude _ p.altitude)
    recovers_done

theorem recovers_management (m : Management) : (Denm.management.decode resolve).Recovers resolve [m.item] :=
  recovers_extensibleSequence _ m.additions <|
    .required (recovers_actionId m.actionId) <|
    .required (recovers_integer _ (by decide) m.detectionTime) <|
    .required (recovers_integer _ (by decide) m.referenceTime) <|
    .optional (recovers_enumerated _) m.termination <|
    .required (recovers_referencePosition m.eventPosition) <|
    .optional (recovers_enumerated _) m.relevanceDistance <|
    .optional (recovers_enumerated _) m.relevanceTrafficDirection <|
    .defaulted (recovers_integer _ (by decide)) rfl m.validityDuration <|
    .optional (recovers_integer _ (by decide)) m.transmissionInterval <|
    .required (recovers_integer _ (by decide) m.stationType)
    recovers_done

theorem recovers_deltaPosition (name : String) (p : DeltaPosition) :
    ((Denm.deltaPosition name).decode resolve).Recovers resolve [p.item name] :=
  recovers_sequence _ <|
    .required (recovers_integer _ (by decide) p.latitude) <|
    .required (recovers_integer _ (by decide) p.longitude) <|
    .required (recovers_integer _ (by decide) p.altitude)
    recovers_done

theorem recovers_deltaTime (name : String) (t : Extensible 1 65535) :
    ((Denm.deltaTime name).decode resolve).Recovers resolve [.extensible name t] :=
  recovers_extensibleInteger name (by decide) t

theorem recovers_eventPoint (p : EventPoint) : (Denm.eventPoint.decode resolve).Recovers resolve [p.item] :=
  recovers_sequence _ <|
    .required (recovers_deltaPosition _ p.position) <|
    .optional (recovers_deltaTime _) p.deltaTime <|
    .required (recovers_integer _ (by decide) p.informationQuality)
    recovers_done

theorem recovers_situation (s : Situation) : (Denm.situation.decode resolve).Recovers resolve [s.item] :=
  recovers_extensibleSequence _ s.additions <|
    .required (recovers_integer _ (by decide) s.informationQuality) <|
    .required (recovers_cause _ s.eventType) <|
    .optional (recovers_cause _) s.linkedCause <|
    .optional (recovers_sequenceOf _ (by decide) recovers_eventPoint) s.eventHistory
    recovers_done

theorem recovers_speed (s : Speed) :
    (decode resolve (.sequence "eventSpeed" false <|
      .required (.integer "speedValue" 0 16383) <|
      .required (.integer "speedConfidence" 1 127) .done)).Recovers resolve [s.item] :=
  recovers_sequence _ <|
    .required (recovers_integer _ (by decide) s.value) <|
    .required (recovers_integer _ (by decide) s.confidence)
    recovers_done

theorem recovers_heading (h : Heading) :
    (decode resolve (.sequence "eventPositionHeading" false <|
      .required (.integer "headingValue" 0 3601) <|
      .required (.integer "headingConfidence" 1 127) .done)).Recovers resolve [h.item] :=
  recovers_sequence _ <|
    .required (recovers_integer _ (by decide) h.value) <|
    .required (recovers_integer _ (by decide) h.confidence)
    recovers_done

theorem recovers_pathPoint (p : PathPoint) : (Denm.pathPoint.decode resolve).Recovers resolve [p.item] :=
  recovers_sequence _ <|
    .required (recovers_deltaPosition _ p.position) <|
    .optional (recovers_deltaTime _) p.deltaTime
    recovers_done

theorem recovers_location (l : Location) : (Denm.location.decode resolve).Recovers resolve [l.item] :=
  recovers_extensibleSequence _ l.additions <|
    .optional recovers_speed l.speed <|
    .optional recovers_heading l.heading <|
    .required (recovers_sequenceOf _ (by decide)
      (recovers_sequenceOf _ (by decide) recovers_pathPoint) l.traces) <|
    .optional (recovers_enumerated _) l.roadType
    recovers_done

/-- The container of further details is left out. -/
theorem recovers_parts (n : Notification) : Denm.schema.Recovers resolve n.parts :=
  .required (recovers_management n.management) <|
  .optional recovers_situation n.situation <|
  .optional recovers_location n.location <|
  .omitted
  recovers_done

end Notification

end V2x
