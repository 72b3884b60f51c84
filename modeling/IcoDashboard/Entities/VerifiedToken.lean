import IcoDashboard.Entities.Investor

namespace IcoDashboard

/-! # Verified tokens -/

/-- The answer of the verify service to a new verification. -/
structure InitiateResult where
  status : Nat := 200
  verificationId : String
  attempts : Nat := 0
  expiredOn : Nat := 0
  method : String
  code : Option String := none
  totpUri : Option String := none
  qrPngDataUri : Option String := none
deriving DecidableEq, Repr

def Verification.createVerification (data : InitiateResult) : Verification where
  id := data.verificationId
  method := data.method
  attempts := some data.attempts
  expiredOn := some data.expiredOn

/-- A token that is created verified has no verification. -/
structure VerifiedToken where
  token : String
  verified : Bool
  verification : Option Verification
deriving DecidableEq, Repr

namespace VerifiedToken

def createNotVerifiedToken (token : String) (verification : InitiateResult) : VerifiedToken where
  token := token
  verified := false
  verification := some (Verification.createVerification verification)

def createVerifiedToken (token : String) : VerifiedToken where
  token := token
  verified := true
  verification := none

/-- A save replaces the stored document. -/
def write (_stored loaded : VerifiedToken) : VerifiedToken := loaded

end VerifiedToken
end IcoDashboard
