import IcoDashboard.Async.Joint
import IcoDashboard.Accounts.WalletOwners
import IcoDashboard.Chain.Origins

namespace IcoDashboard.Backend

open IcoDashboard.Async IcoDashboard.Data
open Chain (Columns OfTransfer OfReferralTransfer RecordedBy)

/-! # Transactions of the investors

The account requests and the chain handlers run side by side: a handler counts
the investors as they are stored at that moment, so a record of a transaction
goes back to the activation that created one of its wallets.
-/

def feedInvestors (world : Accounts.World) : Chain.Op → Chain.Choice → Chain.Choice
  | .countInvestors _, choice => { choice with investors := world.investors.docs.map Doc.val }
  | _, choice => choice

def transactions (app : App) (web3 : Chain.Web3) :
    Joint Accounts.Op Accounts.Ans Exception Accounts.World Accounts.Choice Accounts.Arrival
      Accounts.Response Chain.Op Chain.Ans Exception Chain.World Chain.Choice Chain.Request Unit where
  first := Accounts.accounts app
  second := Chain.handlers app web3
  admits _ _ := true
  feed := feedInvestors

abbrev TransactionState : Type :=
  JointState Accounts.Op Accounts.Ans Exception Accounts.World Accounts.Arrival Accounts.Response
    Chain.Op Chain.Ans Exception Chain.World Chain.Request Unit

variable {app : App} {web3 : Chain.Web3} {state : TransactionState}

/-- A count above zero has found a stored investor with one of the addresses. -/
theorem counted_investor (reached : (transactions app web3).Reachable (Joint.idle {} {}) state)
    {thread count : Nat} {addresses : List String}
    (counted : ⟨thread, ⟨.countInvestors addresses, .ok count⟩⟩ ∈ state.second.log)
    (positive : 0 < count) :
    ∃ origin id investor wallet, (transactions app web3).Reachable (Joint.idle {} {}) origin ∧
      (transactions app web3).Reachable origin state ∧
      origin.first.world.investors.lookup id = some investor ∧ investor.ethWallet = some wallet ∧
      wallet.address ∈ addresses := by
  obtain ⟨past, occurs⟩ := occurs_of_mem counted
  obtain ⟨origin, choice, start, _, answered, after⟩ := reached.answered occurs
  have total : (origin.first.world.investors.docs.map Doc.val).countP (Chain.hasWallet addresses) =
      count := by
    simp only [transactions, Chain.handlers, Chain.perform, feedInvestors] at answered
    split at answered
    · cases answered
    · exact (Except.ok.inj answered).symm
  rw [← total] at positive
  obtain ⟨investor, member, has⟩ := List.countP_pos_iff.mp positive
  obtain ⟨doc, inDocs, rfl⟩ := List.mem_map.mp member
  obtain ⟨wallet, own, address⟩ := (Option.any_eq_true _ _).mp has
  exact ⟨origin, doc.id, doc.val, wallet, start, after, Collection.lookup_eq_some_iff.mpr inDocs, own,
    by simpa using address⟩

theorem mem_investorAddresses {addresses : Chain.FromToTokenAmount} {address : String}
    (member : address ∈ Chain.TransactionService.investorAddresses addresses) :
    address = addresses.from ∨ addresses.to = some address := by
  unfold Chain.TransactionService.investorAddresses at member
  split at member
  · rename_i recipient given
    split at member
    · exact .inl (List.mem_singleton.mp member)
    · rcases List.mem_cons.mp member with sender | other
      · exact .inl sender
      · exact .inr (by rw [given, List.mem_singleton.mp other])
  · exact .inl (List.mem_singleton.mp member)

/-- The record is of a wallet that an activation of a stored investor created. -/
def Owned (app : App) (state : TransactionState) (tx : Transaction) : Prop :=
  ∃ id email wallet, Accounts.emailOf state.first.world.investors id = some email ∧
    Accounts.CreatedFor app state.first email wallet ∧
    (wallet.address = tx.from ∨ tx.to = some wallet.address)

/-- In every interleaving of account requests and chain handlers, a stored record
either goes back to an event of the contracts, or it is of a wallet that an
activation of a stored investor created after a code of it was validated. -/
theorem record_owner (reached : (transactions app web3).Reachable (Joint.idle {} {}) state)
    {key : TransactionKey} {tx : Transaction} (stored : state.second.world.records key = some tx) :
    ∃ past thread request, RecordedBy app web3 state.second past thread request tx ∧
      (OfTransfer web3 request (localTrace thread past) (Columns.of tx) ∨
        OfReferralTransfer web3 request (localTrace thread past) (Columns.of tx) ∨
        Owned app state tx) := by
  obtain ⟨past, thread, request, recorded⟩ := Chain.recordedBy reached.ofSecond stored
  refine ⟨past, thread, request, recorded, ?_⟩
  obtain ⟨inserted, occurs, same, serves, fromTransaction | fromTransfer | fromReferral⟩ := recorded
  · obtain ⟨data, addresses, ethAmount, count, _, _, _, counted, positive, columns⟩ := fromTransaction
    have inLog := mem_localTrace.mp ((occurs.localTrace_extends thread).subset counted)
    obtain ⟨origin, id, investor, wallet, start, after, lookup, has, member⟩ :=
      counted_investor reached inLog positive
    have introduced := Accounts.stored_wallet start.ofFirst lookup has
    have kept := Accounts.emailOf_kept start.ofFirst after.ofFirst
      (by simp [Accounts.emailOf, lookup] : Accounts.emailOf _ id = some investor.email)
    refine .inr (.inr ⟨id, investor.email, wallet, kept,
      (introduced.extended after.ofFirst.log_extends).createdFor reached.ofFirst kept, ?_⟩)
    have sender : tx.from = addresses.from := congrArg Columns.from columns
    have recipient : tx.to = addresses.to := congrArg Columns.to columns
    rw [sender, recipient]
    exact mem_investorAddresses member
  · exact .inl fromTransfer
  · exact .inr (.inl fromReferral)

/-- The newcomer signs up and activates with the address of Alice. -/
def newcomerActivates : List (Action Accounts.Choice Accounts.Arrival) :=
  Accounts.signUp ++
    .start
      { request := .activate { email := "ann@example.com", verificationId := "v1", code := "123456" }
        draws := { mnemonic := "pig", salt := Chain.aliceAddress } } ::
    (Accounts.activation 1).tail

/-- Then the block with a payment of hers is handled. -/
def newcomerRecorded : TransactionState :=
  (transactions Chain.sampleApp .sample).run (Joint.idle {} {})
    (newcomerActivates.map .first ++ (Chain.blockActions [Chain.payment] 5).map .second)

def paymentRecord : Transaction :=
  Chain.minedRecord Chain.sampleApp .sample (Chain.sampleBlock [Chain.payment]) ⟨.flag true⟩
    Chain.payment ⟨Chain.aliceAddress, some Chain.bobAddress, none⟩

theorem newcomer_record_owner :
    ∃ past thread request,
      RecordedBy Chain.sampleApp .sample newcomerRecorded.second past thread request paymentRecord ∧
      (OfTransfer .sample request (localTrace thread past) (Columns.of paymentRecord) ∨
        OfReferralTransfer .sample request (localTrace thread past) (Columns.of paymentRecord) ∨
        Owned Chain.sampleApp newcomerRecorded paymentRecord) := by
  have stored : newcomerRecorded.second.world.records
      ⟨"0xe5d5", .ethereumTransfer, Chain.aliceAddress, some Chain.bobAddress⟩ =
      some paymentRecord := rfl
  exact record_owner (Joint.reachable_run _ _) stored

end IcoDashboard.Backend
