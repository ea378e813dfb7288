namespace DoubleEntry.Sql

-- Accounts, append-only entries and transfers. The constraints are part of the books: positive
-- amounts between two different accounts, and no row without its account.
def initialSchema : String := "-- Ledger schema: accounts, append-only entries and transfers.

CREATE TABLE IF NOT EXISTS accounts (
    id          BIGSERIAL PRIMARY KEY,
    owner       VARCHAR(64)  NOT NULL,
    currency    VARCHAR(3)   NOT NULL,
    balance     BIGINT       NOT NULL DEFAULT 0,
    created_at  TIMESTAMPTZ  NOT NULL DEFAULT NOW(),
    UNIQUE (owner, currency)
);

CREATE INDEX IF NOT EXISTS idx_accounts_owner ON accounts (owner);

CREATE TABLE IF NOT EXISTS entries (
    id          BIGSERIAL PRIMARY KEY,
    account_id  BIGINT       NOT NULL REFERENCES accounts (id),
    amount      BIGINT       NOT NULL,
    created_at  TIMESTAMPTZ  NOT NULL DEFAULT NOW()
);

CREATE INDEX IF NOT EXISTS idx_entries_account ON entries (account_id);

CREATE TABLE IF NOT EXISTS transfers (
    id               BIGSERIAL PRIMARY KEY,
    from_account_id  BIGINT       NOT NULL REFERENCES accounts (id),
    to_account_id    BIGINT       NOT NULL REFERENCES accounts (id),
    amount           BIGINT       NOT NULL CHECK (amount > 0),
    created_at       TIMESTAMPTZ  NOT NULL DEFAULT NOW(),
    CHECK (from_account_id <> to_account_id)
);

CREATE INDEX IF NOT EXISTS idx_transfers_from ON transfers (from_account_id);
CREATE INDEX IF NOT EXISTS idx_transfers_to ON transfers (to_account_id);
CREATE INDEX IF NOT EXISTS idx_transfers_pair ON transfers (from_account_id, to_account_id);
"

end DoubleEntry.Sql
