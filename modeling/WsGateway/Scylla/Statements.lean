import WsGateway.Lib.Cql
import WsGateway.Registry.Component

/-!
# The statements of `ScyllaDBManager`

The three statement builders put their arguments between quotes as they are.
Each statement is the intended one exactly when its arguments are plain; then
executing it is the abstract upsert, deletion or lookup on the table.
-/

namespace WsGateway.Scylla

open Lib Lib.Cql Registry

/-- A name that is a single word in a statement. -/
structure Identifier where
  name : Bytes
  ne_nil : name ≠ []
  word : ∀ b ∈ name, isWord b = true

/-- The names a manager writes into its statements. `create_keyspace` and
`create_table` have put both into statements of their own at the start. -/
structure ScyllaDBManager where
  keyspace : Identifier
  table : Identifier

def vinColumn : Bytes := ascii "vin"

def hostColumn : Bytes := ascii "host"

/-! ## The texts -/

/-- The text that `insert_data` executes. -/
def ScyllaDBManager.insertDataQuery (m : ScyllaDBManager) (vin host : Bytes) : Bytes :=
  ascii "INSERT INTO " ++ m.keyspace.name ++ ascii "." ++ m.table.name ++
    ascii " (vin, host) VALUES ('" ++ vin ++ ascii "', '" ++ host ++ ascii "');"

/-- The text that `delete_data` executes. -/
def ScyllaDBManager.deleteDataQuery (m : ScyllaDBManager) (vin : Bytes) : Bytes :=
  ascii "DELETE FROM " ++ m.keyspace.name ++ ascii "." ++ m.table.name ++
    ascii " WHERE vin = '" ++ vin ++ ascii "';"

/-- The text that `query_table` executes. -/
def ScyllaDBManager.queryTableQuery (m : ScyllaDBManager) (vin : Bytes) : Bytes :=
  ascii "SELECT host FROM " ++ m.keyspace.name ++ ascii "." ++ m.table.name ++
    ascii " WHERE vin = '" ++ vin ++ ascii "';"

/-! ## The statements they should be -/

def ScyllaDBManager.insertStatement (m : ScyllaDBManager) (vin host : Bytes) : Statement :=
  .insert m.keyspace.name m.table.name (vinColumn, vin) (hostColumn, host)

def ScyllaDBManager.deleteStatement (m : ScyllaDBManager) (vin : Bytes) : Statement :=
  .delete m.keyspace.name m.table.name (vinColumn, vin)

def ScyllaDBManager.selectStatement (m : ScyllaDBManager) (vin : Bytes) : Statement :=
  .select hostColumn m.keyspace.name m.table.name (vinColumn, vin)

/-- `cass_statement_new(query.c_str(), 0)`: the statement that is executed. -/
def statement (query : Bytes) : Option Statement := readStatement (cString query)

/-- What a statement does to the manager's table, and the host that it returns.
Statements on other tables or columns leave the table alone. -/
def ScyllaDBManager.effect (m : ScyllaDBManager) (t : Table) : Statement → Table × Option Bytes
  | .insert ks tb first second =>
      if ks = m.keyspace.name ∧ tb = m.table.name ∧ first.1 = vinColumn ∧
          second.1 = hostColumn then
        (t.insert first.2 second.2, none)
      else (t, none)
  | .delete ks tb key =>
      if ks = m.keyspace.name ∧ tb = m.table.name ∧ key.1 = vinColumn then
        (t.erase key.2, none)
      else (t, none)
  | .select col ks tb key =>
      if ks = m.keyspace.name ∧ tb = m.table.name ∧ key.1 = vinColumn ∧ col = hostColumn then
        (t, t.lookup key.2)
      else (t, none)

@[simp] theorem effect_insertStatement (m : ScyllaDBManager) (t : Table) (vin host : Bytes) :
    m.effect t (m.insertStatement vin host) = (t.insert vin host, none) := by
  simp [ScyllaDBManager.effect, ScyllaDBManager.insertStatement]

@[simp] theorem effect_deleteStatement (m : ScyllaDBManager) (t : Table) (vin : Bytes) :
    m.effect t (m.deleteStatement vin) = (t.erase vin, none) := by
  simp [ScyllaDBManager.effect, ScyllaDBManager.deleteStatement]

@[simp] theorem effect_selectStatement (m : ScyllaDBManager) (t : Table) (vin : Bytes) :
    m.effect t (m.selectStatement vin) = (t, t.lookup vin) := by
  simp [ScyllaDBManager.effect, ScyllaDBManager.selectStatement]

/-! ## Reading the texts back -/

theorem Identifier.not_mem_zero (i : Identifier) : 0 ∉ i.name := by
  intro h
  exact absurd (i.word 0 h) (by decide)

theorem lex_names (m : ScyllaDBManager) (rest : Bytes) :
    lex (.code []) (m.keyspace.name ++ 46 :: (m.table.name ++ rest)) =
      (lex (.code m.table.name) rest).map fun ts =>
        .word m.keyspace.name :: .symbol 46 :: ts := by
  have hdot : startsComment 46 (m.table.name ++ rest) = false := by simp [startsComment]
  rw [lex_word _ _ _ m.keyspace.word, List.nil_append,
    lex_symbol _ _ (by decide) (by decide) hdot (by decide), lex_word _ _ _ m.table.word,
    List.nil_append]
  simp [flush, m.keyspace.ne_nil]

/-- What a statement lexes to up to the opening quote of its first literal. -/
theorem lex_insert (m : ScyllaDBManager) (rest : Bytes) :
    lex (.code []) (ascii "INSERT INTO " ++ (m.keyspace.name ++ 46 :: (m.table.name ++
      (ascii " (vin, host) VALUES ('" ++ rest)))) =
      (lex (.literal []) rest).map ([.word (ascii "INSERT"), .word (ascii "INTO"),
        .word m.keyspace.name, .symbol 46, .word m.table.name, .symbol 40, .word vinColumn,
        .symbol 44, .word hostColumn, .symbol 41, .word (ascii "VALUES"), .symbol 40] ++ ·) := by
  have hhead : ∀ x, lex (.code []) (ascii "INSERT INTO " ++ x) =
      (lex (.code []) x).map ([.word (ascii "INSERT"), .word (ascii "INTO")] ++ ·) :=
    lex_words [ascii "INSERT", ascii "INTO"] (by decide)
  have htail : lex (.code m.table.name) (ascii " (vin, host) VALUES ('" ++ rest) =
      (lex (.literal []) rest).map ([.word m.table.name, .symbol 40, .word vinColumn, .symbol 44,
        .word hostColumn, .symbol 41, .word (ascii "VALUES"), .symbol 40] ++ ·) := by
    cases h : lex (.literal []) rest <;>
      simp [lex, ascii, isWord, isDigit, isSpace, startsComment, quote, flush, h,
        m.table.ne_nil, vinColumn, hostColumn]
  rw [hhead, lex_names, htail, Option.map_map, Option.map_map]
  rfl

theorem lex_where (m : ScyllaDBManager) (rest : Bytes) :
    lex (.code m.table.name) (ascii " WHERE vin = '" ++ rest) =
      (lex (.literal []) rest).map ([.word m.table.name, .word (ascii "WHERE"), .word vinColumn,
        .symbol 61] ++ ·) := by
  cases h : lex (.literal []) rest <;>
    simp [lex, ascii, isWord, isDigit, isSpace, startsComment, quote, flush, h, m.table.ne_nil,
      vinColumn]

theorem lex_delete_head (x : Bytes) :
    lex (.code []) (ascii "DELETE FROM " ++ x) =
      (lex (.code []) x).map ([.word (ascii "DELETE"), .word (ascii "FROM")] ++ ·) :=
  lex_words [ascii "DELETE", ascii "FROM"] (by decide) x

theorem lex_select_head (x : Bytes) :
    lex (.code []) (ascii "SELECT host FROM " ++ x) =
      (lex (.code []) x).map ([.word (ascii "SELECT"), .word hostColumn,
        .word (ascii "FROM")] ++ ·) :=
  lex_words [ascii "SELECT", hostColumn, ascii "FROM"] (by decide) x

theorem cString_names (m : ScyllaDBManager) {head tail : Bytes} (hh : 0 ∉ head) (ht : 0 ∉ tail)
    (rest : Bytes) :
    cString (head ++ m.keyspace.name ++ ascii "." ++ m.table.name ++ tail ++ rest) =
      head ++ (m.keyspace.name ++ 46 :: (m.table.name ++ (tail ++ cString rest))) := by
  have hks := m.keyspace.not_mem_zero
  have htb := m.table.not_mem_zero
  have hdot : (0 : UInt8) ∉ ascii "." := by decide
  rw [cString_append (by simp [hh, hks, hdot, htb, ht])]
  simp [ascii]

theorem lex_between (rest : Bytes) :
    lex (.code []) (44 :: cString (32 :: quote :: rest)) =
      (lex (.literal []) (cString rest)).map (.symbol 44 :: ·) := by
  have hc : cString (32 :: quote :: rest) = 32 :: quote :: cString rest := rfl
  rw [hc]
  cases h : lex (.literal []) (cString rest) <;>
    simp [lex, isWord, isDigit, isSpace, startsComment, quote, flush, h]

/-! ## Faithful exactly on plain arguments -/

theorem lex_insertDataQuery (m : ScyllaDBManager) (vin host : Bytes) :
    lex (.code []) (cString (m.insertDataQuery vin host)) =
      (lex (.literal []) (cString (vin ++ quote :: 44 :: 32 :: quote ::
        (host ++ quote :: 41 :: [59])))).map
        ([.word (ascii "INSERT"), .word (ascii "INTO"), .word m.keyspace.name, .symbol 46,
          .word m.table.name, .symbol 40, .word vinColumn, .symbol 44, .word hostColumn,
          .symbol 41, .word (ascii "VALUES"), .symbol 40] ++ ·) := by
  have htext : m.insertDataQuery vin host = ascii "INSERT INTO " ++ m.keyspace.name ++
      ascii "." ++ m.table.name ++ ascii " (vin, host) VALUES ('" ++
        (vin ++ quote :: 44 :: 32 :: quote :: (host ++ quote :: 41 :: [59])) := by
    simp [ScyllaDBManager.insertDataQuery, ascii, quote]
  rw [htext, cString_names m (by decide) (by decide), lex_insert]

theorem statement_insertDataQuery_iff (m : ScyllaDBManager) (vin host : Bytes) :
    statement (m.insertDataQuery vin host) = some (m.insertStatement vin host) ↔
      Plain vin ∧ Plain host := by
  have hhost (ts : List Token) : lex (.literal []) (cString (host ++ quote :: 41 :: [59])) =
      some (.literal host :: ts) ↔ Plain host ∧ ts = [.symbol 41, .symbol 59] := by
    have hend : lex (.code []) (41 :: cString [59]) = some [.symbol 41, .symbol 59] := rfl
    rw [lex_cString_literal_iff _ _ (by decide) (by decide), hend, Option.some.injEq, eq_comm]
  rw [statement, readStatement, lex_insertDataQuery]
  constructor
  · intro h
    obtain ⟨ts, hts, hparse⟩ := Option.bind_eq_some_iff.mp h
    obtain ⟨ts₁, hts₁, rfl⟩ := Option.map_eq_some_iff.mp hts
    obtain ⟨k₁, k₂, k₃, heq⟩ := parse_eq_some hparse
    have hvalues : ts₁ = [.literal vin, .symbol 44, .literal host, .symbol 41, .symbol 59] := by
      simp only [ScyllaDBManager.insertStatement, Statement.tokens, List.cons_append,
        List.nil_append, List.cons.injEq] at heq
      tauto
    rw [hvalues, lex_cString_literal_iff _ _ (by decide) (by decide), lex_between] at hts₁
    obtain ⟨ts₂, hts₂, heq₂⟩ := Option.map_eq_some_iff.mp hts₁.2
    rw [List.cons.injEq] at heq₂
    rw [heq₂.2] at hts₂
    exact ⟨hts₁.1, ((hhost _).mp hts₂).1⟩
  · intro hboth
    rcases hboth with ⟨hvin, hplain⟩
    have hlit := (hhost _).mpr ⟨hplain, rfl⟩
    rw [(lex_cString_literal_iff vin _ (by decide) (by decide) _).mpr
      ⟨hvin, by rw [lex_between, hlit]; rfl⟩]
    rfl

/-- A statement on one key, given how the text up to the name of the table reads. -/
theorem lex_keyed (m : ScyllaDBManager) {head : Bytes} (h0 : 0 ∉ head) {hs : List Token}
    (hhead : ∀ x, lex (.code []) (head ++ x) = (lex (.code []) x).map (hs ++ ·)) (vin : Bytes) :
    lex (.code []) (cString (head ++ m.keyspace.name ++ ascii "." ++ m.table.name ++
      ascii " WHERE vin = '" ++ vin ++ ascii "';")) =
      (lex (.literal []) (cString (vin ++ quote :: 59 :: []))).map
        ((hs ++ [.word m.keyspace.name, .symbol 46, .word m.table.name, .word (ascii "WHERE"),
          .word vinColumn, .symbol 61]) ++ ·) := by
  have htext : head ++ m.keyspace.name ++ ascii "." ++ m.table.name ++ ascii " WHERE vin = '" ++
      vin ++ ascii "';" = head ++ m.keyspace.name ++ ascii "." ++ m.table.name ++
        ascii " WHERE vin = '" ++ (vin ++ quote :: 59 :: []) := by
    simp [ascii, quote]
  rw [htext, cString_names m h0 (by decide), hhead, lex_names, lex_where, Option.map_map,
    Option.map_map]
  congr 1
  funext ts
  simp

theorem lex_key_iff (vin : Bytes) (ts : List Token) :
    lex (.literal []) (cString (vin ++ quote :: 59 :: [])) = some (.literal vin :: ts) ↔
      Plain vin ∧ ts = [.symbol 59] := by
  have hend : lex (.code []) (59 :: cString []) = some [.symbol 59] := rfl
  rw [lex_cString_literal_iff _ _ (by decide) (by decide), hend, Option.some.injEq, eq_comm]

/-- A keyed statement is the one that its tokens parse to exactly for a plain key. -/
theorem statement_keyed_iff (m : ScyllaDBManager) {head : Bytes} (h0 : 0 ∉ head)
    {hs : List Token}
    (hhead : ∀ x, lex (.code []) (head ++ x) = (lex (.code []) x).map (hs ++ ·)) {vin : Bytes}
    {stmt : Statement}
    (hparse : ∀ ts, parse ((hs ++ [.word m.keyspace.name, .symbol 46, .word m.table.name,
      .word (ascii "WHERE"), .word vinColumn, .symbol 61]) ++ ts) = some stmt ↔
        ts = [.literal vin, .symbol 59]) :
    statement (head ++ m.keyspace.name ++ ascii "." ++ m.table.name ++ ascii " WHERE vin = '" ++
      vin ++ ascii "';") = some stmt ↔ Plain vin := by
  have hkey := lex_key_iff vin [.symbol 59]
  rw [and_iff_left rfl] at hkey
  rw [← hkey, statement, readStatement, lex_keyed m h0 hhead, Option.bind_eq_some_iff]
  constructor
  · intro h
    rcases h with ⟨ts, hts, hstmt⟩
    obtain ⟨ts₁, hts₁, rfl⟩ := Option.map_eq_some_iff.mp hts
    rw [← (hparse ts₁).mp hstmt]
    exact hts₁
  · intro hts
    exact ⟨_, Option.map_eq_some_iff.mpr ⟨_, hts, rfl⟩, (hparse _).mpr rfl⟩

theorem statement_deleteDataQuery_iff (m : ScyllaDBManager) (vin : Bytes) :
    statement (m.deleteDataQuery vin) = some (m.deleteStatement vin) ↔ Plain vin := by
  refine statement_keyed_iff m (by decide) lex_delete_head fun ts => ⟨fun h => ?_, ?_⟩
  · obtain ⟨k₁, k₂, k₃, heq⟩ := parse_eq_some h
    simp only [ScyllaDBManager.deleteStatement, Statement.tokens, List.cons_append,
      List.nil_append, List.cons.injEq] at heq
    tauto
  · intro htail
    subst htail
    rfl

theorem statement_queryTableQuery_iff (m : ScyllaDBManager) (vin : Bytes) :
    statement (m.queryTableQuery vin) = some (m.selectStatement vin) ↔ Plain vin := by
  refine statement_keyed_iff m (by decide) lex_select_head fun ts => ⟨fun h => ?_, ?_⟩
  · obtain ⟨k₁, k₂, k₃, heq⟩ := parse_eq_some h
    simp only [ScyllaDBManager.selectStatement, Statement.tokens, List.cons_append,
      List.nil_append, List.cons.injEq] at heq
    tauto
  · intro htail
    subst htail
    rfl

/-! ## Executing the texts -/

/-- Execute a text on the table. A text that is not a single statement is refused. -/
def ScyllaDBManager.execute (m : ScyllaDBManager) (t : Table) (query : Bytes) :
    Table × Option Bytes :=
  match statement query with
  | some stmt => m.effect t stmt
  | none => (t, none)

abbrev PlainText := {v : Bytes // Plain v}

@[simp] theorem execute_insertDataQuery (m : ScyllaDBManager) (t : Table)
    (vin host : PlainText) :
    m.execute t (m.insertDataQuery vin host) = (t.insert vin.1 host.1, none) := by
  rw [ScyllaDBManager.execute,
    (statement_insertDataQuery_iff m vin host).mpr ⟨vin.2, host.2⟩]
  exact effect_insertStatement m t vin host

@[simp] theorem execute_deleteDataQuery (m : ScyllaDBManager) (t : Table) (vin : PlainText) :
    m.execute t (m.deleteDataQuery vin) = (t.erase vin.1, none) := by
  rw [ScyllaDBManager.execute, (statement_deleteDataQuery_iff m vin).mpr vin.2]
  exact effect_deleteStatement m t vin

@[simp] theorem execute_queryTableQuery (m : ScyllaDBManager) (t : Table) (vin : PlainText) :
    m.execute t (m.queryTableQuery vin) = (t, t.lookup vin.1) := by
  rw [ScyllaDBManager.execute, (statement_queryTableQuery_iff m vin).mpr vin.2]
  exact effect_selectStatement m t vin

theorem execute_insertDataQuery_injective (m : ScyllaDBManager) :
    Function.Injective fun (p : PlainText × PlainText) (t : Table) =>
      m.execute t (m.insertDataQuery p.1 p.2) := by
  intro pair hpair h
  rcases pair with ⟨vin, host⟩
  rcases hpair with ⟨vin', host'⟩
  have hrow : (∅ : Table).insert vin.1 host.1 = (∅ : Table).insert vin'.1 host'.1 := by
    simpa using congrFun h ∅
  have hlookup := congrArg (fun t => AList.lookup vin.1 t) hrow
  simp only [AList.lookup_insert] at hlookup
  by_cases hv : vin.1 = vin'.1
  · rw [hv, AList.lookup_insert, Option.some.injEq] at hlookup
    rw [Subtype.ext hv, Subtype.ext hlookup]
  · rw [AList.lookup_insert_ne hv] at hlookup
    cases hlookup

theorem execute_deleteDataQuery_injective (m : ScyllaDBManager) :
    Function.Injective fun (vin : PlainText) (t : Table) =>
      m.execute t (m.deleteDataQuery vin) := by
  intro vin vin' h
  have hrow : ((∅ : Table).insert vin.1 []).erase vin.1 =
      ((∅ : Table).insert vin.1 []).erase vin'.1 := by
    simpa only [execute_deleteDataQuery, Prod.mk.injEq, and_true] using
      congrFun h ((∅ : Table).insert vin.1 [])
  by_contra hne
  have hv : vin.1 ≠ vin'.1 := fun hv => hne (Subtype.ext hv)
  have hlookup := congrArg (fun t => AList.lookup vin.1 t) hrow
  simp only [AList.lookup_erase, AList.lookup_erase_ne hv, AList.lookup_insert] at hlookup
  cases hlookup

theorem execute_queryTableQuery_injective (m : ScyllaDBManager) :
    Function.Injective fun (vin : PlainText) (t : Table) =>
      m.execute t (m.queryTableQuery vin) := by
  intro vin vin' h
  have hhost := congrFun h ((∅ : Table).insert vin.1 [])
  simp only [execute_queryTableQuery, Prod.mk.injEq, true_and, AList.lookup_insert] at hhost
  by_contra hne
  have hv : vin'.1 ≠ vin.1 := fun hv => hne (Subtype.ext hv.symm)
  rw [AList.lookup_insert_ne hv] at hhost
  cases hhost

/-- Each statement says what its arguments say exactly when they have no quote
and no NUL; then different arguments have different effects. -/
theorem statements_faithful_iff (m : ScyllaDBManager) :
    (∀ vin host, statement (m.insertDataQuery vin host) = some (m.insertStatement vin host) ↔
      Plain vin ∧ Plain host) ∧
    (∀ vin, statement (m.deleteDataQuery vin) = some (m.deleteStatement vin) ↔ Plain vin) ∧
    (∀ vin, statement (m.queryTableQuery vin) = some (m.selectStatement vin) ↔ Plain vin) ∧
    (Function.Injective fun (p : PlainText × PlainText) (t : Table) =>
      m.execute t (m.insertDataQuery p.1 p.2)) ∧
    (Function.Injective fun (vin : PlainText) (t : Table) =>
      m.execute t (m.deleteDataQuery vin)) ∧
    (Function.Injective fun (vin : PlainText) (t : Table) =>
      m.execute t (m.queryTableQuery vin)) :=
  ⟨statement_insertDataQuery_iff m, statement_deleteDataQuery_iff m,
    statement_queryTableQuery_iff m, execute_insertDataQuery_injective m,
    execute_deleteDataQuery_injective m, execute_queryTableQuery_injective m⟩

def defaultManager : ScyllaDBManager where
  keyspace := ⟨ascii "vin", by decide, List.all_eq_true.mp (by decide)⟩
  table := ⟨ascii "vehicles", by decide, List.all_eq_true.mp (by decide)⟩

/-- A client id that closes its own literal: the row of `VIN2` is written, with a
host of the client's choice, and a comment swallows the rest. -/
theorem quoted_client_id_writes_other_row :
    statement (defaultManager.insertDataQuery (ascii "VIN2','evil');--") (ascii "gw1")) =
        some (defaultManager.insertStatement (ascii "VIN2") (ascii "evil")) ∧
      statement (defaultManager.insertDataQuery (ascii "VIN2','evil');--") (ascii "gw1")) ≠
        some (defaultManager.insertStatement (ascii "VIN2','evil');--") (ascii "gw1")) := by
  have hlex : lex (.literal []) (cString (ascii "VIN2','evil');--" ++ quote :: 44 :: 32 ::
      quote :: (ascii "gw1" ++ quote :: 41 :: [59]))) =
      some [.literal (ascii "VIN2"), .symbol 44, .literal (ascii "evil"), .symbol 41,
        .symbol 59] := by
    simp [lex, cString, ascii, isWord, isDigit, isSpace, startsComment, quote, flush, lf]
  have hread : statement (defaultManager.insertDataQuery (ascii "VIN2','evil');--")
      (ascii "gw1")) = some (defaultManager.insertStatement (ascii "VIN2") (ascii "evil")) := by
    rw [statement, readStatement, lex_insertDataQuery, hlex]
    rfl
  refine ⟨hread, ?_⟩
  rw [hread, ne_eq, Option.some.injEq, ScyllaDBManager.insertStatement,
    ScyllaDBManager.insertStatement, Statement.insert.injEq]
  decide

end WsGateway.Scylla
