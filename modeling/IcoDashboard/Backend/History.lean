import IcoDashboard.Accounts.CustomerIds
import IcoDashboard.Backend.Payments
import IcoDashboard.Gateway.History

namespace IcoDashboard.Backend

open IcoDashboard.Async IcoDashboard.Async.Program IcoDashboard.Data

/-! # Histories of the investors

Which payments an investor is shown: those that the investor has ordered and that
some notification has reached, and nobody else's.
-/

variable {app : App} {state : PaymentState}

end IcoDashboard.Backend
