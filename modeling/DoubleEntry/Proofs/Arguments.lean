import Mathlib.Data.List.Perm.Basic
import DoubleEntry.CommandLine
import DoubleEntry.Sql.Server

namespace DoubleEntry.CommandLine

inductive Part where
  | flag (name : String)
  | option (name text : String)
deriving DecidableEq, Repr

namespace Part

def name : Part → String
  | flag name | option name _ => name

def text? : Part → Option String
  | flag _ => none
  | option _ text => some text

def words : Part → List String
  | flag name => [name]
  | option name text => [name,text]

end Part

def words (order : List Part) : List String := order.flatMap Part.words

def given (name : String) (order : List Part) : Option String :=
  (order.find? (·.name = name)).bind Part.text?

@[simp] theorem given_nil (name : String) : given name [] = none := rfl

@[simp] theorem given_cons (name : String) (p : Part) (order : List Part) :
    given name (p :: order) = if p.name = name then p.text? else given name order := by
  by_cases named : p.name = name <;> simp [given,named]

-- The name stands nowhere as a value and in front of something, unless its option came before.
def Unmistaken (name : String) (order : List Part) : Prop :=
  ∀ before p after, order = before ++ p :: after → p.text? = some name →
    after = [] ∨ ∃ q ∈ before ++ [p], q.name = name

theorem option?_cons_of_ne {name word : String} (other : word ≠ name) (args : List String) :
    option? name (word :: args) = option? name args := by
  cases args with
  | nil => rfl
  | cons next rest => rw [option?,if_neg other]

theorem mem_words {name : String} {order : List Part} :
    name ∈ words order ↔ ∃ p ∈ order, p.name = name ∨ p.text? = some name := by
  rw [words,List.mem_flatMap]
  refine exists_congr fun p => and_congr_right fun _ => ?_
  cases p <;> simp [Part.words,Part.name,Part.text?,eq_comm]

theorem unmistaken_cons {name : String} {p : Part} {order : List Part} :
    Unmistaken name (p :: order) ↔
      p.name = name ∨ (p.text? = some name → order = []) ∧ Unmistaken name order := by
  constructor
  · intro unmistaken
    by_cases named : p.name = name
    · exact .inl named
    · refine .inr ⟨fun taken => ?_,?_⟩
      · rcases unmistaken [] p order rfl taken with last | early
        · exact last
        · simp [named] at early
      · intro before q after whole taken
        rcases unmistaken (p :: before) q after (by rw [whole,List.cons_append]) taken with
          last | early
        · exact .inl last
        · simpa [named] using Or.inr early
  · intro scanned before q after whole taken
    cases before with
    | nil =>
      cases whole
      rcases scanned with named | ⟨last,_⟩
      · exact .inr ⟨p,by simp,named⟩
      · exact .inl (last taken)
    | cons first before =>
      cases whole
      rcases scanned with named | ⟨_,later⟩
      · exact .inr ⟨p,by simp,named⟩
      · rcases later before q after rfl taken with last | ⟨seen,member,named⟩
        · exact .inl last
        · exact .inr ⟨seen,List.mem_cons_of_mem _ member,named⟩

theorem option?_words {name : String} {order : List Part} (unmistaken : Unmistaken name order)
    (noFlag : Part.flag name ∉ order) : option? name (words order) = given name order := by
  induction order with
  | nil => rfl
  | cons p order ih =>
    by_cases named : p.name = name
    · cases p with
      | flag _ => exact (noFlag (named ▸ List.mem_cons_self)).elim
      | option _ text =>
        simp only [Part.name] at named
        simp [words,Part.words,option?,given,Part.name,Part.text?,named]
    · obtain ⟨last,onward⟩ := (unmistaken_cons.mp unmistaken).resolve_left named
      have later := ih onward fun member => noFlag (List.mem_cons_of_mem _ member)
      rw [given_cons,if_neg named]
      cases p with
      | flag _ => exact (option?_cons_of_ne named _).trans later
      | option _ text =>
        refine (option?_cons_of_ne named _).trans ?_
        by_cases taken : text = name
        · cases last (congrArg some taken)
          rfl
        · exact (option?_cons_of_ne taken _).trans later

theorem given_of_perm {name : String} {order parts : List Part} (placed : order.Perm parts)
    (distinct : (parts.map Part.name).Nodup) : given name order = given name parts := by
  induction placed with
  | nil => rfl
  | cons p _ ih =>
    have later := ih (List.nodup_cons.mp distinct).2
    rw [given_cons,given_cons,later]
  | swap p q rest =>
    have apart : p.name ≠ q.name := by
      simp only [List.map_cons,List.nodup_cons,List.mem_cons,not_or] at distinct
      exact distinct.1.1
    by_cases first : p.name = name
    · have second : q.name ≠ name := fun same => apart (first.trans same.symm)
      simp [first,second]
    · simp [first]
  | trans _ second ih ih' =>
    exact (ih ((second.map Part.name).nodup_iff.mpr distinct)).trans (ih' distinct)

def optional (name : String) (text : Option String) : List Part :=
  (text.map (.option name)).toList

@[simp] theorem given_optional (name key : String) (text : Option String) (parts : List Part) :
    given name (optional key text ++ parts) =
      if key = name then text.or (given name parts) else given name parts := by
  cases text with
  | none => simp [optional]
  | some text => exact given_cons name (.option key text) parts

theorem mem_optional {p : Part} {key : String} {text : Option String} :
    p ∈ optional key text ↔ ∃ t, text = some t ∧ p = .option key t := by
  cases text <;> simp [optional]

-- How a command is written down: numbers and currencies are what they are read as.
inductive Command.Writes : Command → List Part → Prop
  | migrate : Writes .migrate [.flag "--migrate"]
  | createAccount {owner text : String} {currency : Currency}
      (named : Currency.ofName? text = some currency) :
      Writes (.createAccount owner currency)
        [.flag "--create-account",.option "--owner" owner,.option "--currency" text]
  | listAccounts {owner : String} :
      Writes (.listAccounts owner) [.flag "--accounts",.option "--owner" owner]
  | transfer {source destination amount : String} {r : TransferRequest}
      (from_ : Bigint.read source = .ok r.source) (to_ : Bigint.read destination = .ok r.destination)
      (of_ : Bigint.read amount = .ok r.amount) :
      Writes (.transfer r) (optional "--owner" r.owner ++
        [.option "--from" source,.option "--to" destination,.option "--amount" amount])

def Command.flagsBefore : Command → List String
  | migrate => []
  | createAccount _ _ => ["--migrate"]
  | listAccounts _ => ["--migrate","--create-account"]
  | transfer _ => ["--migrate","--create-account","--accounts"]

def Command.optionsRead (env : Option String) (command : Command) : List String :=
  "--env" :: (if env.isNone then ["-e"] else []) ++ match command with
    | migrate => []
    | createAccount _ _ => ["--owner","--currency"]
    | listAccounts _ => ["--owner"]
    | transfer _ => ["--from","--to","--amount","--owner"]

section Values
variable {name text : String} {args : List String}

theorem required_of_option (found : option? name args = some text) :
    required name args = .ok text := by
  rw [required,found]

theorem requiredInt_of_option {n : Int} (found : option? name args = some text)
    (read : Bigint.read text = .ok n) : requiredInt name args = .ok n := by
  simp only [requiredInt,required_of_option found,Bind.bind,Except.bind,read]
  rfl

theorem requiredCurrency_of_option {currency : Currency} (found : option? name args = some text)
    (named : Currency.ofName? text = some currency) :
    requiredCurrency name args = .ok currency := by
  simp only [requiredCurrency,required_of_option found,Bind.bind,Except.bind,named]
  rfl

end Values

section ReadBack
variable {command : Command} {parts order : List Part} {env : Option String}

theorem Command.Writes.distinct (written : command.Writes parts) (env : Option String) :
    ((optional "--env" env ++ parts).map Part.name).Nodup := by
  cases written with
  | migrate | createAccount | listAccounts => cases env <;> simp [optional,Part.name]
  | @transfer _ _ _ r => cases env <;> cases r.owner <;> simp [optional,Part.name]

theorem Command.Writes.no_flag (written : command.Writes parts) {name : String}
    (read : name ∈ command.optionsRead env) : Part.flag name ∉ optional "--env" env ++ parts := by
  cases written <;> cases env <;> simp [optionsRead,mem_optional] at read ⊢ <;> grind

theorem option?_written (written : command.Writes parts)
    (placed : order.Perm (optional "--env" env ++ parts)) {name : String}
    (read : name ∈ command.optionsRead env) (unmistaken : Unmistaken name order) :
    option? name (words order) = given name (optional "--env" env ++ parts) := by
  have noFlag : Part.flag name ∉ order := fun member =>
    written.no_flag read (placed.mem_iff.mp member)
  rw [option?_words unmistaken noFlag,given_of_perm placed (written.distinct env)]

-- A flag is found if it was put there, or is the text of a value.
theorem flag_words {name : String} :
    flag name (words order) = true ↔
      ∃ p ∈ order, p.name = name ∨ p.text? = some name := by
  rw [flag,List.contains_iff_mem,mem_words]

theorem environment_words (written : command.Writes parts)
    (placed : order.Perm (optional "--env" env ++ parts))
    (unmistaken : ∀ name ∈ command.optionsRead env, Unmistaken name order) :
    environment (words order) = env.getD "dev" := by
  have long : option? "--env" (words order) = env := by
    have read : "--env" ∈ command.optionsRead env := List.mem_cons_self
    rw [option?_written written placed read (unmistaken _ read)]
    cases written <;> simp [Part.name]
  rw [environment,long]
  cases env with
  | some e => rfl
  | none =>
    have read : "-e" ∈ command.optionsRead none := by simp [Command.optionsRead]
    rw [option?_written written placed read (unmistaken _ read)]
    cases written <;> simp [Part.name]

theorem flag_of_mem {name : String} (put : Part.flag name ∈ order) :
    flag name (words order) = true :=
  flag_words.mpr ⟨_,put,.inl rfl⟩

theorem no_flag_before (written : command.Writes parts)
    (placed : order.Perm (optional "--env" env ++ parts)) {name : String}
    (before : name ∈ command.flagsBefore) (apart : ∀ p ∈ order, p.text? ≠ some name) :
    flag name (words order) = false := by
  apply Bool.eq_false_iff.mpr
  intro found
  obtain ⟨p,member,named | taken⟩ := flag_words.mp found
  · have put := placed.mem_iff.mp member
    subst named
    cases written <;>
      simp only [Command.flagsBefore,List.mem_append,mem_optional,List.mem_cons,List.not_mem_nil]
        at before put <;>
      grind [Part.name]
  · exact apart p member taken

theorem read_words (written : command.Writes parts)
    (placed : order.Perm (optional "--env" env ++ parts))
    (apart : ∀ name ∈ command.flagsBefore, ∀ p ∈ order, p.text? ≠ some name)
    (unmistaken : ∀ name ∈ command.optionsRead env, Unmistaken name order) :
    Command.read (words order) = .ok command := by
  have absent : ∀ name ∈ command.flagsBefore, flag name (words order) = false :=
    fun name before => no_flag_before written placed before (apart name before)
  have found : ∀ name ∈ command.optionsRead env,
      option? name (words order) = given name (optional "--env" env ++ parts) :=
    fun name read => option?_written written placed read (unmistaken name read)
  have put : ∀ p ∈ parts, p ∈ order := fun p member =>
    placed.mem_iff.mpr (List.mem_append_right _ member)
  unfold Command.read
  cases written with
  | migrate => rw [if_pos (flag_of_mem (put _ (by simp)))]
  | createAccount named =>
    have owner := found "--owner" (by simp [Command.optionsRead])
    have currency := found "--currency" (by simp [Command.optionsRead])
    simp only [given_optional,given_cons,Part.name,Part.text?,String.reduceEq,if_true,if_false]
      at owner currency
    rw [absent "--migrate" (by simp [Command.flagsBefore]),flag_of_mem (put _ (by simp)),
      required_of_option owner,requiredCurrency_of_option currency named]
    rfl
  | listAccounts =>
    have owner := found "--owner" (by simp [Command.optionsRead])
    simp only [given_optional,given_cons,Part.name,Part.text?,String.reduceEq,if_true,if_false]
      at owner
    rw [absent "--migrate" (by simp [Command.flagsBefore]),
      absent "--create-account" (by simp [Command.flagsBefore]),flag_of_mem (put _ (by simp)),
      required_of_option owner]
    rfl
  | transfer from_ to_ of_ =>
    have source := found "--from" (by simp [Command.optionsRead])
    have destination := found "--to" (by simp [Command.optionsRead])
    have amount := found "--amount" (by simp [Command.optionsRead])
    have owner := found "--owner" (by simp [Command.optionsRead])
    simp only [given_optional,given_cons,given_nil,Part.name,Part.text?,String.reduceEq,if_true,
      if_false,Option.or_none] at source destination amount owner
    rw [absent "--migrate" (by simp [Command.flagsBefore]),
      absent "--create-account" (by simp [Command.flagsBefore]),
      absent "--accounts" (by simp [Command.flagsBefore]),
      requiredInt_of_option source from_,requiredInt_of_option destination to_,
      requiredInt_of_option amount of_,source,owner]
    rfl

end ReadBack

section Running
variable {m : Type → Type} [Monad m]

theorem orFail_ok [LawfulMonad m] {ε α : Type} (wrap : ε → Failure) (a : α) :
    (orFail wrap (pure (.ok a)) : ExceptT Failure m α) = pure a := by
  apply ExceptT.ext
  simp [orFail]

variable [Sql.Connection m] [Sql.Bookkeeping m]

def prepare (load : String → Except ConfigError Config) (env : String) :
    ExceptT Failure m Config := do
  let config ← orFail .config (pure (load env))
  orFail .connect (Sql.Connection.dial config.database.url)
  let _ ← orFail .healthCheck (Sql.execute .ping)
  orFail .migrate Sql.migrate
  return config

def deal (args : List String) (config : Config) : ExceptT Failure m (Option Json) := do
  let command ← orFail .usage (pure (Command.read args))
  command.execute config

theorem work_eq [LawfulMonad m] (load : String → Except ConfigError Config) (args : List String) :
    (work load args : ExceptT Failure m (Option Json)) =
      prepare load (environment args) >>= deal args := by
  unfold deal
  simp only [work,prepare,bind_assoc,pure_bind]

-- The environment that was written is the one that is set up, and the command that was written is
-- the one that is carried out, with the values that were written.
theorem command_read_back [LawfulMonad m] {command : Command} {parts order : List Part}
    {env : Option String} (written : command.Writes parts)
    (placed : order.Perm (optional "--env" env ++ parts))
    (apart : ∀ name ∈ command.flagsBefore, ∀ p ∈ order, p.text? ≠ some name)
    (unmistaken : ∀ name ∈ command.optionsRead env, Unmistaken name order)
    (load : String → Except ConfigError Config) :
    environment (words order) = env.getD "dev" ∧ Command.read (words order) = .ok command ∧
    (work load (words order) : ExceptT Failure m (Option Json)) = (do
      let config ← prepare load (env.getD "dev")
      command.execute config) := by
  have setting := environment_words written placed unmistaken
  have read := read_words written placed apart unmistaken
  refine ⟨setting,read,?_⟩
  rw [work_eq,setting]
  refine bind_congr fun config => ?_
  rw [deal,read,orFail_ok,pure_bind]

def settings : Config :=
  { logLevel := "info", logDir := "./logs", logFile := "gobank.log", useJson := true,
    rotation := "daily", database := { url := "postgres://unused" } }

-- The owner has the name of an option, which has been given by then.
theorem command_read_back_shuffled :
    let args := ["--env","test","--to","2","--amount","+30","--owner","--env","--from","1"]
    environment args = "test" ∧
    Command.read args = .ok (.transfer ⟨⟨1,2,30⟩,some "--env"⟩) ∧
    (work (fun _ => .ok settings) args : ExceptT Failure Sql.Session (Option Json)) = (do
      let config ← prepare (fun _ => .ok settings) "test"
      (Command.transfer ⟨⟨1,2,30⟩,some "--env"⟩).execute config) := by
  have written : Command.Writes (.transfer ⟨⟨1,2,30⟩,some "--env"⟩)
      (optional "--owner" (some "--env") ++
        [.option "--from" "1",.option "--to" "2",.option "--amount" "+30"]) :=
    .transfer rfl rfl rfl
  let order : List Part := [.option "--env" "test",.option "--to" "2",.option "--amount" "+30",
    .option "--owner" "--env",.option "--from" "1"]
  have placed : order.Perm (optional "--env" (some "test") ++ (optional "--owner" (some "--env") ++
      [.option "--from" "1",.option "--to" "2",.option "--amount" "+30"])) := by
    decide
  refine command_read_back (m := Sql.Session) written placed ?_ ?_ _
  · simp [order,Command.flagsBefore,Part.text?]
  · simp [order,Command.optionsRead,unmistaken_cons,Part.name,Part.text?]

def vocabulary : List String :=
  ["--env","-e","--migrate","--create-account","--accounts","--owner","--currency","--from","--to",
    "--amount"]

-- The name of the program may stand in front of its arguments, unless it is such a word itself.
theorem work_cons [LawfulMonad m] {program : String} (unknown : program ∉ vocabulary)
    (load : String → Except ConfigError Config) (args : List String) :
    (work load (program :: args) : ExceptT Failure m (Option Json)) = work load args := by
  have other : ∀ name ∈ vocabulary, program ≠ name := by
    intro name member same
    exact unknown (same ▸ member)
  have passed : ∀ name ∈ vocabulary, option? name (program :: args) = option? name args :=
    fun name member => option?_cons_of_ne (other name member) args
  have absent : ∀ name ∈ vocabulary, flag name (program :: args) = flag name args := by
    intro name member
    simp [flag,(other name member).symm]
  simp only [vocabulary,List.forall_mem_cons] at passed absent
  have same : deal (m := m) (program :: args) = deal args := by
    unfold deal
    simp only [Command.read,required,requiredInt,requiredCurrency,passed,absent]
  simp only [work_eq,environment,passed,same]

theorem command_misread :
    (Command.listAccounts "--env").Writes [.flag "--accounts",.option "--owner" "--env"] ∧
    [Part.option "--owner" "--env",.flag "--accounts"].Perm
      (optional "--env" none ++ [.flag "--accounts",.option "--owner" "--env"]) ∧
    environment (words [.option "--owner" "--env",.flag "--accounts"]) = "--accounts" ∧
    (Command.listAccounts "--migrate").Writes [.flag "--accounts",.option "--owner" "--migrate"] ∧
    Command.read (words [.flag "--accounts",.option "--owner" "--migrate"]) = .ok .migrate :=
  ⟨.listAccounts,.swap ..,rfl,.listAccounts,rfl⟩

end Running

end DoubleEntry.CommandLine
