import V2x.Schema.Frames

/-!
# Signal status

The answers of intersections to requests for priority, down to the single request.
-/

namespace V2x.Schema.Ssem

def requester : Field :=
  .sequence "requester" true <|
    .required (vehicleId "id") <|
    .required (.integer "request" 0 255) <|
    .required (.integer "sequenceNumber" 0 127) <|
    .optional (vehicleRole "role") <|
    .optional (requestor "typeData") .done

def statusPackage : Field :=
  .sequence "SignalStatusPackage" true <|
    .optional requester <|
    .required (accessPoint "inboundOn") <|
    .optional (accessPoint "outboundOn") <|
    .optional (.integer "minute" 0 527040) <|
    .optional (.integer "second" 0 65535) <|
    .optional (.integer "duration" 0 65535) <|
    .required (responseStatus "status") <|
    .optional (.regionalList .signalStatusPackage) .done

def signalStatus : Field :=
  .sequence "SignalStatus" true <|
    .required (.integer "sequenceNumber" 0 127) <|
    .required (intersectionReference "id") <|
    .required (.sequenceOf "sigStatus" 1 32 statusPackage) <|
    .optional (.regionalList .signalStatus) .done

def schema : Schema :=
  .ofField <| .sequence "SignalStatusMessage" true <|
    .optional (.integer "timeStamp" 0 527040) <|
    .required (.integer "second" 0 65535) <|
    .optional (.integer "sequenceNumber" 0 127) <|
    .required (.sequenceOf "status" 1 32 signalStatus) <|
    .optional (.regionalList .signalStatusMessage) .done

end V2x.Schema.Ssem
