import IcoDashboard.Platform
import IcoDashboard.Helpers

namespace IcoDashboard

open IcoDashboard.Data

/-! # Investors

The investor document with its embedded verification, wallet and invitees.  A
column that may be undefined is an `Option`.
-/

def emailVerification : String := "email"

def authenticatorVerification : String := "google_auth"

structure Verification where
  id : String
  method : String
  attempts : Option Nat := none
  expiredOn : Option Nat := none
deriving DecidableEq, Repr

structure Wallet where
  ticker : String
  address : String
  balance : String
  salt : String
deriving DecidableEq, Repr

structure Invitee where
  email : String
  lastSentAt : Nat
  attempts : Nat
deriving DecidableEq, Repr

structure JumioInitResult where
  timestamp : String
  authorizationToken : String
  jumioIdScanReference : String
  clientRedirectUrl : String
deriving DecidableEq, Repr

structure ShuftiproInitResult where
  statusCode : Option String := none
  message : Option String := none
  reference : Option String := none
  signature : Option String := none
  error : Bool := false
  timestamp : Option String := none
deriving DecidableEq, Repr

structure ShuftiproKycResult where
  statusCode : Option String := none
  message : Option String := none
  reference : Option String := none
  signature : Option String := none
  error : Bool := false
  timestamp : Option String := none
  user : Option ObjectID := none
deriving DecidableEq, Repr

def ShuftiproKycResult.createShuftiproKycResult (data : ShuftiproInitResult) : ShuftiproKycResult where
  statusCode := data.statusCode
  message := data.message
  reference := data.reference
  signature := data.signature
  timestamp := data.timestamp
  error := data.error

/-- What the `kycInitResult` column may hold.  The two ShuftiPro shapes name
their status `status_code` and `statusCode`. -/
inductive KycInitResult where
  | jumio (result : JumioInitResult)
  | shuftiproInit (result : ShuftiproInitResult)
  | shuftiproKyc (result : ShuftiproKycResult)
deriving DecidableEq, Repr

namespace KycInitResult

def reference : KycInitResult → Option String
  | .jumio _ => none
  | .shuftiproInit result => result.reference
  | .shuftiproKyc result => result.reference

def statusCode : KycInitResult → Option String
  | .shuftiproKyc result => result.statusCode
  | _ => none

end KycInitResult

structure Investor where
  email : String
  firstName : String
  lastName : String
  phone : Option String
  country : String
  dob : String
  passwordHash : String
  agreeTos : Bool
  isVerified : Bool
  defaultVerificationMethod : String
  referralCode : String
  referral : Option String
  kycStatus : KycStatus
  source : Option String
  scope : Option String
  verification : Verification
  ethWallet : Option Wallet
  invitees : List Invitee
  kycInitResult : Option KycInitResult
deriving DecidableEq, Repr

structure UserData where
  email : String
  firstName : String
  lastName : String
  phone : Option String := none
  country : String
  dob : String
  agreeTos : Bool
  referral : Option String := none
  source : Option String := none
  scope : Option String := none
  password : String

namespace Investor

def name (investor : Investor) : String :=
  investor.firstName ++ " " ++ investor.lastName

def createInvestor (app : App) (data : UserData) (passwordHash verificationId : String) :
    Investor where
  email := app.toLowerCase data.email
  firstName := data.firstName
  lastName := data.lastName
  phone := if truthy data.phone then data.phone else app.config.shuftiproDefaultPhone
  country := data.country
  dob := data.dob
  agreeTos := data.agreeTos
  passwordHash := passwordHash
  isVerified := false
  kycStatus := if app.config.kycEnabled then .notVerified else app.config.kycStatusDefault
  referralCode := Helpers.base64encode (app.toLowerCase data.email)
  referral := data.referral
  defaultVerificationMethod := emailVerification
  verification := { id := verificationId, method := emailVerification }
  invitees := []
  source := data.source
  scope := data.scope
  ethWallet := none
  kycInitResult := none

def addEthWallet (investor : Investor) (wallet : Wallet) : Investor :=
  { investor with ethWallet := some wallet }

/-- A save replaces the stored document. -/
def write (_stored loaded : Investor) : Investor := loaded

end Investor

namespace Invitee

variable (now : Nat)

def firstTimeInvitee (email : String) : Invitee := { email, lastSentAt := now, attempts := 1 }

def invitedAgain (invitee : Invitee) : Invitee :=
  { invitee with attempts := invitee.attempts + 1, lastSentAt := now }

def invitedDuringLast24Hours (invitee : Invitee) : Bool :=
  decide ((now : Int) - invitee.lastSentAt < 3600 * 24)

def reachedMaxAttemptsCount (invitee : Invitee) : Bool :=
  decide (5 ≤ invitee.attempts)

end Invitee

namespace Investor

variable (app : App) (now : Nat)

/-- What `checkAndUpdateInvitees` leaves behind, also when it throws: it updates
the invitees in place and removes the emails it meets from the caller's array. -/
structure InviteesUpdate where
  result : Except Exception Unit
  invitees : List Invitee
  emails : List String
deriving DecidableEq

/-- The loop over the invitees, with the sends counted and the invitees passed
so far. -/
def updateInvitees : List Invitee → List String → Nat → List Invitee → InviteesUpdate
  | [], emails, _, newInvitees => ⟨.ok (), newInvitees, emails⟩
  | invitee :: rest, emails, total, newInvitees =>
      let invitedDuring24 := invitee.invitedDuringLast24Hours now
      let total := if invitedDuring24 then total + 1 else total
      if invitedDuring24 && decide (50 ≤ total) then
        ⟨.error { constructor := .inviteIsNotAllowed
                  message := "You have already sent 50 invites during last 24 hours" },
          newInvitees ++ invitee :: rest, emails⟩
      else if app.toLowerCase invitee.email ∈ emails then
        let emails := emails.erase (app.toLowerCase invitee.email)
        if invitedDuring24 then
          ⟨.error { constructor := .inviteIsNotAllowed
                    message := "You have already invited \x7b\x7bemail\x7d\x7d during last 24 hours"
                    fields := [("email", invitee.email)] },
            newInvitees ++ invitee :: rest, emails⟩
        else if invitee.reachedMaxAttemptsCount then
          ⟨.error { constructor := .inviteIsNotAllowed
                    message := "You have already invited \x7b\x7bemail\x7d\x7d at least 5 times"
                    fields := [("email", invitee.email)] },
            newInvitees ++ invitee :: rest, emails⟩
        else
          updateInvitees rest emails total (newInvitees ++ [invitee.invitedAgain now])
      else
        updateInvitees rest emails total (newInvitees ++ [invitee])

def checkAndUpdateInvitees (investor : Investor) (emails : List String) : InviteesUpdate :=
  if app.toLowerCase investor.email ∈ emails then
    ⟨.error { constructor := .inviteIsNotAllowed, message := "You are not able to invite yourself" },
      investor.invitees, emails⟩
  else if emails.length > 5 then
    ⟨.error { constructor := .inviteIsNotAllowed
              message := "It is not possible to invite more than 5 emails at once" },
      investor.invitees, emails⟩
  else
    let update := updateInvitees app now investor.invitees emails 0 []
    match update.result with
    | .ok _ => { update with
        invitees := update.invitees ++ update.emails.map (Invitee.firstTimeInvitee now) }
    | .error _ => update

end Investor
end IcoDashboard
