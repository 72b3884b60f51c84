import IcoDashboard.Accounts.Users

namespace IcoDashboard.Accounts

open IcoDashboard.Async IcoDashboard.Async.Program IcoDashboard.Data

/-! # Investing -/

/-- The body of an investment.  `ethAmount` and `gas` are kept as `toString`
renders them. -/
structure InvestBody where
  ethAmount : String
  mnemonic : String
  gas : Option String := none
  gasPrice : Option String := none

structure InvestResult where
  transactionHash : String
  status : String := "pending"
  type : String := "token_purchase"

def Transformers.transformReqBodyToInvestInput (app : App) (body : InvestBody) (gasPrice : String)
    (ethWallet : Wallet) : TransactionInput where
  «from» := ethWallet.address
  «to» := app.config.icoAddress
  amount := body.ethAmount
  gas := if truthy body.gas then body.gas.getD "" else app.config.defaultInvestGas
  gasPrice := gasPrice

namespace DashboardController

def investScope : String := "invest"

def investPayload (ethAmount : String) : Json.Object :=
  [("scope", investScope), ("ethAmount", ethAmount)]

variable (app : App)

/-- The wallet of the user, if the mnemonic of the body is the one it was made
from. -/
def checkMnemonic (user : Investor) (mnemonic : String) : Handler Wallet := do
  let ethWallet ← orThrow user.ethWallet typeError
  throwIf ((app.getAccountByMnemonicAndSalt mnemonic ethWallet.salt).2 ≠ ethWallet.address)
    { constructor := .incorrectMnemonic, message := "Not correct mnemonic phrase" }
  return ethWallet

def tryAgain : Exception :=
  error ("Error. Please try again in few minutes. Contact " ++ app.config.companyName ++
    " Team if you continue to receive this")

/-- The referral on the whitelist contract has to be the one of the sign-up. -/
def checkReferralOf (address : String) (referral : Option String) : Handler Unit :=
  match referral with
  | none => return ()
  | some email =>
      if email = "" then return ()
      else do
        let referral ← request (.findInvestor (.email (app.toLowerCase email)))
        let addressFromWhiteList ← request (.getReferralOf address)
        let ethWallet ← orThrow (referral.bind fun referral => referral.val.ethWallet) typeError
        throwIf (app.toLowerCase addressFromWhiteList ≠ app.toLowerCase ethWallet.address)
          (tryAgain app)

def checkAllowed (address : String) : Handler Unit := do
  let allowed ← request (.isAllowed address)
  throwIf (allowed = false) (tryAgain app)

/-- The gas price of the body, or the current one. -/
def gasPrice (body : InvestBody) : Handler String :=
  match body.gasPrice with
  | some gasPrice => if gasPrice = "" then request .getCurrentGasPrice else return gasPrice
  | none => request .getCurrentGasPrice

def investInitiate (user : Doc ObjectID Investor) (body : InvestBody) : Handler InitiateResult := do
  let ethWallet ← checkMnemonic app user.val body.mnemonic
  let price ← gasPrice body
  let txInput := Transformers.transformReqBodyToInvestInput app body price ethWallet
  let sufficient ← request (.sufficientBalance txInput)
  throwIf (sufficient = false)
    { constructor := .insufficientEthBalance
      message := "Insufficient funds to perform this operation and pay tx fee" }
  checkReferralOf app ethWallet.address user.val.referral
  checkAllowed app ethWallet.address
  let text ← EmailTemplateService.getRenderedTemplate app "init-buy-tokens"
    [("name", user.val.name)]
  VerificationClient.initiateVerification app user.val.defaultVerificationMethod {
    consumer := user.val.email
    issuer := app.config.companyName
    template := some
      { fromEmail := app.config.emailFromGeneral
        subject := "You Purchase Validation Code to Use at " ++ app.config.companyName
        body := text }
    generateCode := some {}
    policy := { expiredOn := "01:00:00" }
    payload := investPayload body.ethAmount }

def investVerify (user : Doc ObjectID Investor) (body : InvestBody)
    (verification : VerificationData) : Handler InvestResult := do
  let ethWallet ← checkMnemonic app user.val body.mnemonic
  checkReferralOf app ethWallet.address user.val.referral
  checkAllowed app ethWallet.address
  let _ ← VerificationClient.checkVerificationPayloadAndCode app verification user.val.email
    (investPayload body.ethAmount) none
  let price ← gasPrice body
  let txInput := Transformers.transformReqBodyToInvestInput app body price ethWallet
  let transactionHash ← request (.sendTransactionByMnemonic txInput body.mnemonic ethWallet.salt)
  return { transactionHash }

end DashboardController
end IcoDashboard.Accounts
