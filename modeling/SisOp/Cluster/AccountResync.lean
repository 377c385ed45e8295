import SisOp.Cluster.Resync

/-!
# The accounts after a resync

`attach_replica` sends every account of the primary that the backup lacks or has
with another record. Nothing removes an account that only the backup has.

Main result: `accounts_equal_iff`, when a resync that returned true leaves the
backup with the primary's accounts.
-/

namespace SisOp.AccountResync

open Lib Std

section Send

variable {primary b : Replica}

/-- Exchanges that keep the accounts keep them however many there are. -/
theorem accounts_sendAll {α : Type} {send : Replica → α → Replica × Option Bool}
    (keeps : ∀ b a, (send b a).1.accounts = b.accounts) (b : Replica) (as : List α) :
    (sendAll send b as).1.accounts = b.accounts := by
  induction as generalizing b with
  | nil => rfl
  | cons a as ih =>
    rw [sendAll]
    split
    · rename_i b' sent
      have kept := keeps b a
      rw [sent] at kept
      exact (ih b').trans kept
    · exact keeps b a

/-- The loop over the accounts, when it goes through: the accounts sent are those
of the backup, the others are as they were. -/
theorem get_sendAll_accounts {accounts : List (Bytes × Bytes)}
    (valid : ∀ account ∈ accounts,
      isValidUsername account.1 = true ∧ isValidRecord account.2 = true)
    (functional : ∀ user r r', (user, r) ∈ accounts → (user, r') ∈ accounts → r = r')
    (sent : (sendAll (fun b account => accountOnLink b account.1 account.2) b accounts).2 =
      some true) (user : Bytes) :
    let after := (sendAll (fun b account => accountOnLink b account.1 account.2) b accounts).1
    (∀ record, (user, record) ∈ accounts → after.accounts.get user = some record) ∧
      ((∀ record, (user, record) ∉ accounts) → after.accounts.get user = b.accounts.get user) := by
  have short := (sendAll_accounts b accounts valid).2.mp sent
  induction accounts generalizing b with
  | nil => exact ⟨fun _ mem => absurd mem List.not_mem_nil, fun _ => rfl⟩
  | cons account accounts ih =>
    obtain ⟨name, record⟩ := account
    obtain ⟨userValid, recordValid⟩ := valid _ List.mem_cons_self
    have stored : ∀ u, (b.apply (.account name record)).1.accounts.get u =
        if u = name then some record else b.accounts.get u := by
      intro u
      simp only [Replica.apply, userValid, recordValid, if_true, dif_pos, Accounts.get_put]
    have step : sendAll (fun b account => accountOnLink b account.1 account.2) b
        ((name, record) :: accounts) =
          sendAll (fun b account => accountOnLink b account.1 account.2)
            (b.apply (.account name record)).1 accounts := by
      rw [sendAll, accountOnLink_eq userValid recordValid,
        if_pos (short _ List.mem_cons_self)]
    rw [step] at sent ⊢
    obtain ⟨mine, others⟩ := ih (fun a mem => valid a (List.mem_cons_of_mem _ mem))
      (fun u r r' left right => functional u r r' (List.mem_cons_of_mem _ left)
        (List.mem_cons_of_mem _ right)) sent (fun a mem => short a (List.mem_cons_of_mem _ mem))
    constructor
    · intro r mem
      rcases List.mem_cons.mp mem with eq | later
      · cases eq
        by_cases again : ∃ r', (user, r') ∈ accounts
        · obtain ⟨r', later⟩ := again
          rw [mine r' later, functional user r' record (List.mem_cons_of_mem _ later) mem]
        · rw [others fun r' later => again ⟨r', later⟩, stored, if_pos rfl]
      · exact mine r later
    · intro absent
      have here : user ≠ name := by
        rintro rfl
        exact absent record List.mem_cons_self
      rw [others fun r later => absent r (List.mem_cons_of_mem _ later), stored, if_neg here]

end Send

section Resync

variable {me : ServerAddress} {members : List ServerAddress} {primary b : Replica}

/-- After a resync that returned true each of the primary's accounts is at the
backup, and its other accounts are as they were. -/
theorem get_attachReplica (bv : b.storage.Valid)
    (returned : (attachReplica me members primary b).2 = some true) {user : Bytes}
    (userValid : isValidUsername user = true) :
    (attachReplica me members primary b).1.accounts.get user =
      (primary.accounts.get user).or (b.accounts.get user) := by
  have replayed := (attachReplica_of_true bv returned).2
  rw [replayed] at returned ⊢
  have valid : ∀ account ∈ accountsToSend primary (Map.ofPairs b.accounts.all),
      isValidUsername account.1 = true ∧ isValidRecord account.2 = true := by
    intro account mem
    have listed := Accounts.mem_all_iff.mp (List.mem_of_mem_filter mem)
    exact ⟨listed.2, Accounts.valid_of_get listed.1⟩
  have functional : ∀ user r r',
      (user, r) ∈ accountsToSend primary (Map.ofPairs b.accounts.all) →
      (user, r') ∈ accountsToSend primary (Map.ofPairs b.accounts.all) → r = r' := by
    intro user r r' left right
    have one := (Accounts.mem_all_iff.mp (mem_accountsToSend_iff.mp left).1).1
    have two := (Accounts.mem_all_iff.mp (mem_accountsToSend_iff.mp right).1).1
    exact Option.some.inj (one.symm.trans two)
  -- the files are sent and deleted after the accounts
  obtain ⟨sent, kept⟩ :
      (sendAll (fun b account => accountOnLink b account.1 account.2) b
        (accountsToSend primary (Map.ofPairs b.accounts.all))).2 = some true ∧
      (replay primary b b.accounts.all b.storage.entries).1.accounts =
        (sendAll (fun b account => accountOnLink b account.1 account.2) b
          (accountsToSend primary (Map.ofPairs b.accounts.all))).1.accounts := by
    dsimp only [replay] at returned ⊢
    split at returned
    · rename_i b₁ accounts
      rw [accounts]
      refine ⟨rfl, ?_⟩
      dsimp only at returned ⊢
      split at returned
      · rename_i b₂ puts
        have afterPuts := @accounts_sendAll (FileKey × FileInfo)
          (fun b entry => putOnLink primary b entry.1.user entry.1.name)
          (fun _ _ => accounts_putOnLink) b₁
          (filesToPut primary.storage.fileMap (Map.ofPairs b.storage.entries))
        rw [puts] at afterPuts
        exact (accounts_sendAll (fun _ _ => accounts_deleteOnLink) b₂ _).trans afterPuts
      · rename_i stopped other
        exact (other _ (Prod.ext rfl returned)).elim
    · rename_i stopped other
      exact (other _ (Prod.ext rfl returned)).elim
  rw [kept]
  obtain ⟨mine, others⟩ := get_sendAll_accounts valid functional sent user
  cases have_ : primary.accounts.get user with
  | none =>
    rw [Option.none_or]
    refine others fun record mem => ?_
    have there := (Accounts.mem_all_iff.mp (mem_accountsToSend_iff.mp mem).1).1
    rw [have_] at there
    cases there
  | some record =>
    rw [Option.some_or]
    by_cases same : b.accounts.get user = some record
    · rw [others fun r mem => ?_, same]
      obtain ⟨listed, differs⟩ := mem_accountsToSend_iff.mp mem
      have there := (Accounts.mem_all_iff.mp listed).1
      rw [have_] at there
      cases there
      exact differs same
    · exact mine record (mem_accountsToSend_iff.mpr
        ⟨Accounts.mem_all_iff.mpr ⟨have_, userValid⟩, same⟩)

/-- A resync that returned true leaves the backup with the primary's accounts
exactly when the backup had no account of its own. -/
theorem accounts_equal_iff (bv : b.storage.Valid)
    (returned : (attachReplica me members primary b).2 = some true) :
    (∀ user, isValidUsername user = true →
      (attachReplica me members primary b).1.accounts.get user = primary.accounts.get user) ↔
    ∀ user, isValidUsername user = true → b.accounts.get user ≠ none →
      primary.accounts.get user ≠ none := by
  refine forall₂_congr fun user valid => ?_
  rw [get_attachReplica bv returned valid]
  cases primary.accounts.get user with
  | none =>
    rw [Option.none_or]
    exact ⟨fun absent present => absurd absent present,
      fun all => by_contra fun present => all present rfl⟩
  | some record => exact ⟨fun _ _ => nofun, fun _ => rfl⟩

end Resync

/-! ## An account that outlives a resync -/

section Examples

/-- A valid record. -/
def record : Bytes := SCHEME ++ bytes "$1$00$" ++ toHex (List.replicate HASH_SIZE 0)

/-- A server with one account and no file. -/
def withAccount (user : Bytes) : Replica := ⟨∅, (∅ : Accounts).put user record (by decide +kernel)⟩

theorem get_withAccount (user u : Bytes) :
    (withAccount user).accounts.get u = if u = user then some record else none := by
  rw [withAccount, Accounts.get_put]
  rfl

/-- The backup has the account the primary has. -/
theorem accounts_equal_same :
    (attachReplica somePrimary [somePrimary] (withAccount (bytes "ana"))
      (withAccount (bytes "ana"))).1.accounts.get (bytes "ana") = some record := by
  have same := (@accounts_equal_iff somePrimary [somePrimary] (withAccount (bytes "ana"))
    (withAccount (bytes "ana")) Storage.valid_empty (by decide +kernel)).mpr
      (fun _ _ present => present) (bytes "ana")
    (by decide)
  rw [same, get_withAccount, if_pos rfl]

/-- The backup has an account the primary does not have. -/
theorem account_left :
    ¬∀ (me : ServerAddress) (members : List ServerAddress) (primary b : Replica),
      primary.storage.Valid → b.storage.Valid →
      (attachReplica me members primary b).2 = some true →
      ∀ user, isValidUsername user = true →
        (attachReplica me members primary b).1.accounts.get user = primary.accounts.get user := by
  intro claim
  have returned : (attachReplica somePrimary [somePrimary] (withAccount (bytes "ana"))
      (withAccount (bytes "bob"))).2 = some true := by decide +kernel
  have same := claim _ _ _ _ Storage.valid_empty Storage.valid_empty returned (bytes "bob")
    (by decide)
  rw [get_attachReplica Storage.valid_empty returned (by decide), get_withAccount,
    get_withAccount, if_neg (by decide), if_pos rfl] at same
  cases same

end Examples

end SisOp.AccountResync
