import IcoDashboard.Async.Program
import IcoDashboard.Data.Collection
import IcoDashboard.Data.Digits

namespace IcoDashboard

/-! # Platform

What the services share: document ids, thrown errors, the configuration values
they read, and the pure library functions they call.  A library function that
only matters through a law carries that law here; nothing else is known of it.
-/

/-- A character in UTF-16. -/
def codeUnits (char : Char) : List Nat :=
  if char.toNat < 0x10000 then [char.toNat]
  else [0xd800 + (char.toNat - 0x10000) / 0x400, 0xdc00 + (char.toNat - 0x10000) % 0x400]

/-- The code units of a text, as JavaScript counts them. -/
def utf16 (text : String) : List Nat := text.toList.flatMap codeUnits

abbrev ObjectID := Fin (2 ^ 96)

namespace ObjectID

instance neZero : NeZero (2 ^ 96) := ⟨by decide⟩

/-- The 24 hexadecimal digits of an id. -/
def toHexString (id : ObjectID) : String :=
  String.ofList ((List.range 24).reverse.map fun place => Nat.digitChar (id.val / 16 ^ place % 16))

def hexValue (char : Char) : Option Nat :=
  if '0' ≤ char ∧ char ≤ '9' then some (char.toNat - 48)
  else if 'a' ≤ char ∧ char ≤ 'f' then some (char.toNat - 87)
  else if 'A' ≤ char ∧ char ≤ 'F' then some (char.toNat - 55)
  else none

/-- `new mongo.ObjectId(text)`: 24 hexadecimal digits, or the low bytes of 12 code
units.  Any other text throws. -/
def ofText (text : String) : Option ObjectID :=
  let units := utf16 text
  let digits := text.toList.filterMap hexValue
  if units.length = 24 ∧ digits.length = 24 then some (.ofNat _ (Data.Digits.value 16 digits))
  else if units.length = 12 then some (.ofNat _ (Data.Digits.value 256 (units.map (· % 256))))
  else none

def invalid : String :=
  "Argument passed in must be a single String of 12 bytes or a string of 24 hex characters"

end ObjectID

/-- The class of a thrown value: those of `exceptions.ts`, the built-in ones and
rejected HTTP requests. -/
inductive ErrorClass where
  | invalidPassword | userExists | userNotFound | tokenNotFound | userNotActivated
  | referralDoesNotExist | referralIsNotActivated | inviteIsNotAllowed | authenticatorError
  | kycAlreadyVerifiedError | kycFailedError | kycPendingError | notCorrectVerificationCode
  | verificationIsNotFound | insufficientEthBalance | maxVerificationsAttemptsReached
  | incorrectMnemonic | userActivated | kycShuftiProInvalidSignature
  | error | typeError | request | mongo
deriving DecidableEq, Repr

structure Exception where
  constructor : ErrorClass := .error
  message : String := ""
  fields : List (String × String) := []
  statusCode : Option Nat := none
  attempts : Nat := 0
deriving DecidableEq, Repr

/-- `Error(message)`. -/
def error (message : String) : Exception := { message }

/-- Reading a property of `undefined`. -/
def typeError : Exception := { constructor := .typeError }

/-- What bcrypt throws for a hash that is none: a text, with no `message`. -/
def invalidHash : Exception := {}

inductive KycStatus where
  | notVerified | verified | failed | pending
deriving DecidableEq, Repr

inductive KycProvider where
  | jumio | shuftipro
deriving DecidableEq, Repr

structure Config where
  companyName : String := "secret_tech"
  frontendUrl : String := ""
  apiUrl : String := ""
  stage : Bool := false
  emailFromGeneral : String := "noreply@icodashboard.space"
  emailFromReferral : String := "partners@icodashboard.space"
  templateRequired : List String :=
    ["init-buy-tokens", "init-change-password", "init-reset-password", "init-signin",
      "init-signup", "invite"]
  verifyMaxAttempts : Nat := 3
  kycEnabled : Bool := false
  kycStatusDefault : KycStatus := .notVerified
  kycProvider : KycProvider := .jumio
  jumioApiSecret : String := ""
  jumioTokenLifetime : Nat := 5184000
  shuftiproClientId : String := ""
  shuftiproSecretKey : String := ""
  shuftiproCallbackUrl : String := ""
  shuftiproRedirectUrl : String := ""
  shuftiproAllowRecreateSession : Bool := false
  shuftiproDefaultPhone : Option String := none
  coinPaymentsCurrency1 : String := "ETH"
  icoAddress : String := ""
  icoOldAddresses : List String := []
  tokenAddress : String := ""
  defaultInvestGas : String := "130000"
  startBlock : Int := 1
  blockOffset : Int := 200
  testFundPrivateKey : Option String := none

structure App where
  config : Config
  toLowerCase : String → String
  toLowerCase_idem : ∀ text, toLowerCase (toLowerCase text) = toLowerCase text
  encodeURIComponent : String → String
  /-- `bcrypt.hashSync` with the salt it drew. -/
  hashSync : String → String → String
  /-- `none` where it throws, as it does for a text that is no hash. -/
  compareSync : String → String → Option Bool
  compareSync_hashSync : ∀ salt text, compareSync text (hashSync salt text) = some true
  /-- The hexadecimal SHA-256 digest of the UTF-8 text. -/
  sha256 : String → String
  /-- The private key and address of an Ethereum account. -/
  getAccountByMnemonicAndSalt : String → String → String × String
  isHex : String → Bool
  /-- The PNG of a QR code, as a data URI. -/
  qrPngDataUri : String → String

/-- An app with the default configuration and the simplest library functions. -/
def App.plain : App where
  config := {}
  toLowerCase text := text
  toLowerCase_idem _ := rfl
  encodeURIComponent text := text
  hashSync _ password := password
  compareSync password hash := some (password = hash)
  compareSync_hashSync _ _ := by simp
  sha256 text := text
  getAccountByMnemonicAndSalt mnemonic salt := (mnemonic, salt)
  isHex _ := true
  qrPngDataUri uri := uri

/-- A string is truthy when it is present and not empty. -/
def truthy : Option String → Bool
  | some text => text ≠ ""
  | none => false

end IcoDashboard
