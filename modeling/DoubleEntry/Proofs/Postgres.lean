import DoubleEntry.Proofs.Alike
import DoubleEntry.Proofs.Transcripts

namespace DoubleEntry

def Instant.micros (t : Instant) : Int := t.seconds * 1000000 + t.nanos / 1000

open Sql

def Account.columns (a : Account) : Columns :=
  [.int a.id,.text a.owner,.text a.currency.name,.int a.balance,.int a.createdAt.micros]

def Entry.columns (e : Entry) : Columns :=
  [.int e.id,.int e.account,.int e.amount,.int e.createdAt.micros]

def Transfer.columns (t : Transfer) : Columns :=
  [.int t.id,.int t.source,.int t.destination,.int t.amount,.int t.createdAt.micros]

theorem decode_account (a : Account) :
    decodeAccount a.columns = .ok { a with createdAt := .ofMicros a.createdAt.micros } := by
  have currency : currencyColumn "currency" (.text a.currency.name) = .ok a.currency := by
    simp only [currencyColumn,textColumn,bind,Except.bind,Currency.ofName?_name]
    rfl
  simp only [decodeAccount,Account.columns,column,List.getD_cons_zero,List.getD_cons_succ,currency]
  rfl

theorem decode_entry (e : Entry) :
    decodeEntry e.columns = .ok { e with createdAt := .ofMicros e.createdAt.micros } := rfl

theorem decode_transfer (t : Transfer) :
    decodeTransfer t.columns = .ok { t with createdAt := .ofMicros t.createdAt.micros } := rfl

namespace Books

-- What a statement does to the tables, or the SQLSTATE it fails with. A row that is inserted gets
-- its id from a sequence and its time from the clock.
def execute (k : Books) (id : Int) (time : Instant) :
    Statement → Except String (List Columns × Books)
  | .insertTransfer source destination amount =>
    -- CHECK (amount > 0), CHECK (from_account_id <> to_account_id)
    if amount ≤ 0 ∨ source = destination then .error "23514"
    -- REFERENCES accounts (id)
    else if k.account? source = none ∨ k.account? destination = none then .error "23503"
    else
      let row : Transfer := ⟨id,source,destination,amount,time⟩
      .ok ([row.columns],{ k with transfers := k.transfers ++ [row] })
  | .insertEntry account amount =>
    -- REFERENCES accounts (id)
    if k.account? account = none then .error "23503"
    else
      let row : Entry := ⟨id,account,amount,time⟩
      .ok ([row.columns],{ k with entries := k.entries ++ [row] })
  | .addToBalance account delta =>
    match k.account? account with
    | none => .ok ([],k)
    | some a =>
      -- balance BIGINT
      if Bigint.Fits (a.balance + delta) then
        .ok ([({ a with balance := a.balance + delta } : Account).columns],k.add account delta)
      else .error "22003"
  | _ => .error "0A000"

end Books

namespace Sql

def Statement.writes : Statement → Bool
  | insertTransfer _ _ _ | insertEntry _ _ | addToBalance _ _ => true
  | _ => false

def Statement.Fits (s : Statement) : Prop := ∀ n, .int n ∈ s.params → Bigint.Fits n

-- Where the one connection stands: between transactions, in one that has changed the tables to this,
-- or in one that a statement has failed in.
inductive Standing where
  | idle
  | working (k : Books)
  | failed
deriving DecidableEq, Repr

def answered {σ : Type} [server : Connection (StateM σ)] (s : Statement) (v : σ) : Received × σ :=
  server.send s v

-- What is relied on of the server. Nothing of a transaction can be seen before its COMMIT.
structure Postgres (σ : Type) [Connection (StateM σ)] where
  committed : σ → Books
  standing : σ → Standing
  begins : ∀ v, standing v = .idle → ∃ r v', answered .begin v = (.ok r,v') ∧
    committed v' = committed v ∧ standing v' = .working (committed v)
  executes : ∀ v k (s : Statement), standing v = .working k → s.writes = true → s.Fits →
    ∃ id time v', committed v' = committed v ∧
      match k.execute id time s with
      | .ok (rows,k') => answered s v = (.ok (.rows rows),v') ∧ standing v' = .working k'
      | .error code =>
        ∃ reason, answered s v = (.error (.database (some code) reason),v') ∧
          standing v' = .failed
  commits : ∀ v k, standing v = .working k → ∃ r v', answered .commit v = (.ok r,v') ∧
    committed v' = k ∧ standing v' = .idle
  rollsBack : ∀ v, standing v ≠ .idle → ∃ r v', answered .rollback v = (.ok r,v') ∧
    committed v' = committed v ∧ standing v' = .idle

end Sql

def Call.statement : Call → Statement
  | begin => .begin
  | insertTransfer source destination amount => .insertTransfer source destination amount
  | insertEntry account amount => .insertEntry account amount
  | addToBalance id delta => .addToBalance id delta
  | commit => .commit
  | rollback => .rollback

namespace Sql
variable {σ : Type}

theorem bind_of_ran {x : StateM σ α} {f : α → StateM σ β} {v v' : σ} {a : α} (ran : x v = (a,v')) :
    (x >>= f) v = f a v' := by
  change (match x v with | (a,v) => f a v) = _
  rw [ran]

variable [Connection (StateM σ)] {v v' : σ} {reply : Received} {s : Statement}

theorem fetchOptional_of_answered {decode : Columns → Decoded α}
    (heard : answered s v = (reply,v')) :
    (fetchOptional decode s : StateM σ _) v = (fetched decode reply,v') := by
  refine (bind_of_ran heard).trans ?_
  match reply with
  | .error _ => rfl
  | .ok result =>
    unfold fetched
    dsimp only
    match result.toRows with
    | [] => rfl
    | _ :: _ => rfl

theorem fetchOne_of_answered {decode : Columns → Decoded α} {row : α}
    (heard : answered s v = (reply,v')) (brought : fetched decode reply = .ok (some row)) :
    (fetchOne decode s : StateM σ _) v = (.ok row,v') := by
  refine (bind_of_ran (fetchOptional_of_answered heard)).trans ?_
  rw [brought]
  rfl

theorem fetchOne_of_refused {decode : Columns → Decoded α} {e : DriverError}
    (heard : answered s v = (.error e,v')) :
    (fetchOne decode s : StateM σ _) v = (.error e,v') :=
  (bind_of_ran (fetchOptional_of_answered heard)).trans rfl

-- The SQLSTATEs of a violated CHECK, a missing reference and a BIGINT out of range.
theorem constraint_of_state {code : String} (state : code ∈ ["23514","23503","22003"])
    (reason : String) :
    (DriverError.database (some code) reason).toStoreError.bare = .constraint "" := by
  simp only [List.mem_cons,List.not_mem_nil,or_false] at state
  rcases state with rfl | rfl | rfl <;> rfl

-- The server keeps the rules of the books. After a failure there is still a transaction to end.
inductive Postgres.Serves (server : Postgres σ) (v : σ) (k : Books) (call : Call) :
    Except StoreError call.Row × σ → Prop where
  | row {r : call.Row} {v' : σ} {written : Books}
      (served : k.bare.serve call = .ok (call.bare r,written.bare))
      (committed : server.committed v' = server.committed v)
      (working : server.standing v' = .working written) : Serves server v k call (.ok r,v')
  | error {e : StoreError} {v' : σ} (refused : k.bare.serve call = .error e.bare)
      (committed : server.committed v' = server.committed v)
      (unended : server.standing v' ≠ .idle) : Serves server v k call (.error e,v')

variable {k : Books}

theorem Postgres.Serves.of_state {server : Postgres σ} {call : Call} {code reason : String}
    (state : code ∈ ["23514","23503","22003"])
    (refused : k.bare.serve call = .error (.constraint ""))
    (committed : server.committed v' = server.committed v)
    (failed : server.standing v' = .failed) :
    server.Serves v k call (.error (DriverError.database (some code) reason).toStoreError,v') := by
  refine .error ?_ committed (failed ▸ nofun)
  rw [constraint_of_state state,refused]

theorem fetched_row {decode : Columns → Decoded α} {row : Columns} {a : α}
    (decoded : decode row = .ok a) : fetched decode (.ok (.rows [row])) = .ok (some a) := by
  change (decode row).map some = _
  rw [decoded]
  rfl

theorem insert_of_answered {decode : Columns → Decoded α} {row : α}
    (heard : answered s v = (reply,v')) (brought : fetched decode reply = .ok (some row)) :
    (do return asStoreError (← fetchOne decode s) : StateM σ _) v = (.ok row,v') :=
  bind_of_ran (fetchOne_of_answered heard brought)

theorem insert_of_refused {decode : Columns → Decoded α} {e : DriverError}
    (heard : answered s v = (.error e,v')) :
    (do return asStoreError (← fetchOne decode s) : StateM σ _) v = (.error e.toStoreError,v') :=
  bind_of_ran (fetchOne_of_refused heard)

theorem Postgres.insertTransfer_serves (server : Postgres σ) {source destination : AccountId}
    {amount : Int} (working : server.standing v = .working k)
    (fits : (Statement.insertTransfer source destination amount).Fits) :
    server.Serves v k (.insertTransfer source destination amount)
      ((answer (.insertTransfer source destination amount) : StateM σ _) v) := by
  obtain ⟨id,time,v',committed,effect⟩ := server.executes v k _ working rfl fits
  simp only [Books.execute] at effect
  simp only [answer]
  by_cases checked : amount ≤ 0 ∨ source = destination
  · rw [if_pos checked] at effect
    obtain ⟨reason,heard,failed⟩ := effect
    rw [insert_of_refused heard]
    exact .of_state (by decide) (if_pos checked) committed failed
  · rw [if_neg checked] at effect
    by_cases unknown : k.account? source = none ∨ k.account? destination = none
    · rw [if_pos unknown] at effect
      obtain ⟨reason,heard,failed⟩ := effect
      rw [insert_of_refused heard]
      refine .of_state (by decide) ?_ committed failed
      rw [Books.serve,if_neg checked,if_pos]
      simpa only [Books.account?_bare_eq_none] using unknown
    · rw [if_neg unknown] at effect
      obtain ⟨heard,written⟩ := effect
      rw [insert_of_answered heard (fetched_row (decode_transfer _))]
      refine .row ?_ committed written
      rw [Books.serve,if_neg checked,if_neg]
      · simp only [Books.bare,List.map_append]
        rfl
      · simpa only [Books.account?_bare_eq_none] using unknown

theorem Postgres.insertEntry_serves (server : Postgres σ) {account : AccountId} {amount : Int}
    (working : server.standing v = .working k)
    (fits : (Statement.insertEntry account amount).Fits) :
    server.Serves v k (.insertEntry account amount)
      ((answer (.insertEntry account amount) : StateM σ _) v) := by
  obtain ⟨id,time,v',committed,effect⟩ := server.executes v k _ working rfl fits
  simp only [Books.execute] at effect
  simp only [answer]
  by_cases unknown : k.account? account = none
  · rw [if_pos unknown] at effect
    obtain ⟨reason,heard,failed⟩ := effect
    rw [insert_of_refused heard]
    refine .of_state (by decide) ?_ committed failed
    rw [Books.serve,if_pos (Books.account?_bare_eq_none.mpr unknown)]
  · rw [if_neg unknown] at effect
    obtain ⟨heard,written⟩ := effect
    rw [insert_of_answered heard (fetched_row (decode_entry _))]
    refine .row ?_ committed written
    rw [Books.serve,if_neg fun none => unknown (Books.account?_bare_eq_none.mp none)]
    simp only [Books.bare,List.map_append]
    rfl

theorem Postgres.addToBalance_serves (server : Postgres σ) {id : AccountId} {delta : Int}
    (working : server.standing v = .working k) (fits : (Statement.addToBalance id delta).Fits) :
    server.Serves v k (.addToBalance id delta)
      ((answer (.addToBalance id delta) : StateM σ _) v) := by
  obtain ⟨_,_,v',committed,effect⟩ := server.executes v k _ working rfl fits
  simp only [Books.execute] at effect
  have ran {reply : Received} (heard : answered (.addToBalance id delta) v = (reply,v')) :
      (answer (.addToBalance id delta) : StateM σ _) v =
        (present id (fetched decodeAccount reply),v') :=
    bind_of_ran (fetchOptional_of_answered heard)
  cases found : k.account? id with
  | none =>
    rw [found] at effect
    obtain ⟨heard,written⟩ := effect
    rw [ran heard]
    refine .error ?_ committed (written ▸ nofun)
    rw [Books.serve,Books.account?_bare,found]
    rfl
  | some a =>
    rw [found] at effect
    dsimp only at effect
    have seen : k.bare.account? id = some a.bare := by
      rw [Books.account?_bare,found,Option.map_some]
    by_cases room : Bigint.Fits (a.balance + delta)
    · rw [if_pos room] at effect
      obtain ⟨heard,written⟩ := effect
      rw [ran heard,fetched_row (decode_account _)]
      refine .row ?_ committed written
      simp only [Books.serve,seen,Books.bare_add]
      rw [if_pos (show Bigint.Fits (a.bare.balance + delta) from room)]
      rfl
    · rw [if_neg room] at effect
      obtain ⟨reason,heard,failed⟩ := effect
      rw [ran heard]
      refine .of_state (by decide) ?_ committed failed
      have unstorable : ¬Bigint.Fits (a.bare.balance + delta) := room
      simp only [Books.serve,seen,if_neg unstorable]

theorem Postgres.serves (server : Postgres σ) {call : Call} (inside : call.Inside)
    (working : server.standing v = .working k) (fits : call.statement.Fits) :
    server.Serves v k call ((answer call : StateM σ _) v) := by
  cases call with
  | insertTransfer => exact server.insertTransfer_serves working fits
  | insertEntry => exact server.insertEntry_serves working fits
  | addToBalance => exact server.addToBalance_serves working fits
  | begin | commit | rollback => cases inside

theorem Postgres.begin (server : Postgres σ) (idle : server.standing v = .idle) :
    ∃ v', (answer .begin : StateM σ _) v = (.ok (),v') ∧ server.committed v' = server.committed v ∧
      server.standing v' = .working (server.committed v) := by
  obtain ⟨r,v',heard,kept⟩ := server.begins v idle
  exact ⟨v',bind_of_ran (bind_of_ran heard),kept⟩

theorem finish_of_answered {r : Result} (heard : answered s v = (.ok r,v')) :
    (finish s : StateM σ _) v = (.ok (),v') := bind_of_ran heard

theorem Postgres.commit (server : Postgres σ) (working : server.standing v = .working k) :
    ∃ v', (answer .commit : StateM σ _) v = (.ok (),v') ∧ server.committed v' = k ∧
      server.standing v' = .idle := by
  obtain ⟨r,v',heard,kept⟩ := server.commits v k working
  exact ⟨v',bind_of_ran (finish_of_answered heard),kept⟩

theorem Postgres.rollback (server : Postgres σ) (unended : server.standing v ≠ .idle) :
    ∃ v', (answer .rollback : StateM σ _) v = (.ok (),v') ∧
      server.committed v' = server.committed v ∧ server.standing v' = .idle := by
  obtain ⟨r,v',heard,kept⟩ := server.rollsBack v unended
  exact ⟨v',bind_of_ran (finish_of_answered heard),kept⟩

end Sql
end DoubleEntry
