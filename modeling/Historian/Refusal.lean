/-!
# Refusals

A device that understands a request but cannot serve it answers with an error
class and an error code.  A request it does not understand is rejected with a
reason.  Only the numbers that this device sends or a client is likely to meet
have names.
-/

namespace Historian

/-! ## Error classes -/

/-- The part of the device that a refusal is about. -/
inductive ErrorClass where
  | device | object | property | resources | security | services | vt | communication
  deriving DecidableEq, Repr

namespace ErrorClass

/-- The number of an error class. -/
def code : ErrorClass → UInt32
  | device => 0
  | object => 1
  | property => 2
  | resources => 3
  | security => 4
  | services => 5
  | vt => 6
  | communication => 7

/-- The error class with a number. -/
def ofCode? : UInt32 → Option ErrorClass
  | 0 => some device
  | 1 => some object
  | 2 => some property
  | 3 => some resources
  | 4 => some security
  | 5 => some services
  | 6 => some vt
  | 7 => some communication
  | _ => none

/-- The name of an error class. -/
def label : ErrorClass → String
  | device => "Device"
  | object => "Object"
  | property => "Property"
  | resources => "Resources"
  | security => "Security"
  | services => "Services"
  | vt => "Vt"
  | communication => "Communication"

end ErrorClass

/-! ## Error codes -/

/-- What is wrong with a refused request. -/
inductive ErrorCode where
  | other | configurationInProgress | deviceBusy | invalidParameterDataType
  | missingRequiredParameter | noSpaceForObject | propertyIsNotAList
  | readAccessDenied | unknownObject | unknownProperty | valueOutOfRange
  | writeAccessDenied | invalidArrayIndex | propertyIsNotAnArray
  deriving DecidableEq, Repr

namespace ErrorCode

/-- The number of an error code. -/
def code : ErrorCode → UInt32
  | other => 0
  | configurationInProgress => 2
  | deviceBusy => 3
  | invalidParameterDataType => 13
  | missingRequiredParameter => 16
  | noSpaceForObject => 18
  | propertyIsNotAList => 22
  | readAccessDenied => 27
  | unknownObject => 31
  | unknownProperty => 32
  | valueOutOfRange => 37
  | writeAccessDenied => 40
  | invalidArrayIndex => 42
  | propertyIsNotAnArray => 50

/-- The error code with a number. -/
def ofCode? : UInt32 → Option ErrorCode
  | 0 => some other
  | 2 => some configurationInProgress
  | 3 => some deviceBusy
  | 13 => some invalidParameterDataType
  | 16 => some missingRequiredParameter
  | 18 => some noSpaceForObject
  | 22 => some propertyIsNotAList
  | 27 => some readAccessDenied
  | 31 => some unknownObject
  | 32 => some unknownProperty
  | 37 => some valueOutOfRange
  | 40 => some writeAccessDenied
  | 42 => some invalidArrayIndex
  | 50 => some propertyIsNotAnArray
  | _ => none

/-- The name of an error code. -/
def label : ErrorCode → String
  | other => "Other"
  | configurationInProgress => "ConfigurationInProgress"
  | deviceBusy => "DeviceBusy"
  | invalidParameterDataType => "InvalidParameterDataType"
  | missingRequiredParameter => "MissingRequiredParameter"
  | noSpaceForObject => "NoSpaceForObject"
  | propertyIsNotAList => "PropertyIsNotAList"
  | readAccessDenied => "ReadAccessDenied"
  | unknownObject => "UnknownObject"
  | unknownProperty => "UnknownProperty"
  | valueOutOfRange => "ValueOutOfRange"
  | writeAccessDenied => "WriteAccessDenied"
  | invalidArrayIndex => "InvalidArrayIndex"
  | propertyIsNotAnArray => "PropertyIsNotAnArray"

end ErrorCode

/-! ## Reject reasons -/

/-- Why a request was not understood. -/
inductive RejectReason where
  | other | bufferOverflow | invalidParameterDataType | invalidTag
  | missingRequiredParameter | tooManyArguments | unrecognizedService
  deriving DecidableEq, Repr

namespace RejectReason

/-- The number of a reject reason. -/
def code : RejectReason → UInt8
  | other => 0
  | bufferOverflow => 1
  | invalidParameterDataType => 3
  | invalidTag => 4
  | missingRequiredParameter => 5
  | tooManyArguments => 7
  | unrecognizedService => 9

/-- The reject reason with a number. -/
def ofCode? : UInt8 → Option RejectReason
  | 0 => some other
  | 1 => some bufferOverflow
  | 3 => some invalidParameterDataType
  | 4 => some invalidTag
  | 5 => some missingRequiredParameter
  | 7 => some tooManyArguments
  | 9 => some unrecognizedService
  | _ => none

/-- The name of a reject reason. -/
def label : RejectReason → String
  | other => "Other"
  | bufferOverflow => "BufferOverflow"
  | invalidParameterDataType => "InvalidParameterDataType"
  | invalidTag => "InvalidTag"
  | missingRequiredParameter => "MissingRequiredParameter"
  | tooManyArguments => "TooManyArguments"
  | unrecognizedService => "UnrecognizedService"

end RejectReason

/-! ## The refusals of this device -/

/-- A refusal: what it is about and what is wrong. -/
structure Refusal where
  errorClass : ErrorClass
  errorCode : ErrorCode
  deriving DecidableEq, Repr

namespace Refusal

/-- No such object is hosted here. -/
def unknownObject : Refusal := ⟨.object, .unknownObject⟩

/-- The object does not serve that property. -/
def unknownProperty : Refusal := ⟨.property, .unknownProperty⟩

/-- The property exists but is not read this way. -/
def readAccessDenied : Refusal := ⟨.property, .readAccessDenied⟩

/-- Ranges can be read of lists only. -/
def propertyIsNotAList : Refusal := ⟨.property, .propertyIsNotAList⟩

/-- An array index was given for a property that has no elements. -/
def propertyIsNotAnArray : Refusal := ⟨.property, .propertyIsNotAnArray⟩

/-- The position asked for is outside the list. -/
def invalidArrayIndex : Refusal := ⟨.property, .invalidArrayIndex⟩

/-- The range is of a kind that is not served. -/
def invalidParameterDataType : Refusal := ⟨.services, .invalidParameterDataType⟩

/-- The wording of a refusal. -/
def message (refusal : Refusal) : String :=
  s!"request refused: {refusal.errorClass.label}/{refusal.errorCode.label}"

end Refusal

end Historian
