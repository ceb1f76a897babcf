import WsGateway.Lib.Runs
import WsGateway.Scylla.Statements

/-!
# The view by host

Two ways to read what `insert_data` and `delete_data` have written: the table
has the host of a vin, its view has the vins of a host. The query on the table
returns the last write. The query on the view does not close its literal: it is
refused whatever the view holds, and the manager returns no vins.
-/

namespace WsGateway.Scylla

open Lib Lib.Cql Lib.Runs Registry

/-! ## Writing -/

inductive Write
  /-- `insert_data(vin, host)` -/
  | insertData (vin host : Bytes)
  /-- `delete_data(vin)` -/
  | deleteData (vin : Bytes)
deriving DecidableEq, Repr

def Write.vin : Write → Bytes
  | .insertData vin _ => vin
  | .deleteData vin => vin

def Write.query (m : ScyllaDBManager) : Write → Bytes
  | .insertData vin host => m.insertDataQuery vin host
  | .deleteData vin => m.deleteDataQuery vin

/-- `execute_query`: the table after it, and its success. -/
def ScyllaDBManager.executeQuery (m : ScyllaDBManager) (t : Table) (query : Bytes) :
    Table × Bool :=
  ((m.execute t query).1, (statement query).isSome)

def ScyllaDBManager.step (m : ScyllaDBManager) (t : Table) (w : Write) : Option Table :=
  match m.executeQuery t (w.query m) with
  | (t', true) => some t'
  | (_, false) => none

def Write.QuoteFree : Write → Prop
  | .insertData vin host => quote ∉ vin ∧ quote ∉ host
  | .deleteData vin => quote ∉ vin

instance : DecidablePred Write.QuoteFree
  | .insertData _ _ => inferInstanceAs (Decidable (_ ∧ _))
  | .deleteData _ => inferInstanceAs (Decidable (¬ _))

def Write.apply (t : Table) : Write → Table
  | .insertData vin host => t.insert vin host
  | .deleteData vin => t.erase vin

/-! ## Reading -/

/-- `query_table`. -/
def ScyllaDBManager.queryTable (m : ScyllaDBManager) (t : Table) (vin : Bytes) : Option Bytes :=
  (m.execute t (m.queryTableQuery vin)).2

/-- The rows of the view, `host` and `vin`. It is in step with its table. -/
def byHost (t : Table) : List (Bytes × Bytes) := t.entries.map fun e => (e.2, e.1)

def ScyllaDBManager.viewName (m : ScyllaDBManager) : Bytes := m.table.name ++ ascii "_by_host"

def ScyllaDBManager.viewRows (m : ScyllaDBManager) (t : Table) : Statement → List Bytes
  | .select col ks view key =>
      if ks = m.keyspace.name ∧ view = m.viewName ∧ key.1 = hostColumn ∧ col = vinColumn then
        ((byHost t).filter fun row => row.1 = key.2).map Prod.snd
      else []
  | _ => []

def ScyllaDBManager.queryMaterializedViewQuery (m : ScyllaDBManager) (host : Bytes) : Bytes :=
  ascii "SELECT vin FROM " ++ m.keyspace.name ++ ascii "." ++ m.table.name ++
    ascii "_by_host WHERE host == '" ++ host

/-- `query_materialized_view`. A refused statement leaves the vector of vins empty. -/
def ScyllaDBManager.queryMaterializedView (m : ScyllaDBManager) (t : Table) (host : Bytes) :
    List Bytes :=
  match statement (m.queryMaterializedViewQuery host) with
  | some stmt => m.viewRows t stmt
  | none => []

/-- The last insertion of the vin has this host, and no deletion follows it. -/
def LastInsert (ws : List Write) (vin host : Bytes) : Prop :=
  ∃ pre post, ws = pre ++ .insertData vin host :: post ∧ ∀ w ∈ post, w.vin ≠ vin

/-- The view has each vin with this host in the table, once, and no other. -/
def ViewAgrees (m : ScyllaDBManager) (t : Table) (host : Bytes) : Prop :=
  (m.queryMaterializedView t host).Nodup ∧
    ∀ vin, vin ∈ m.queryMaterializedView t host ↔
      quote ∉ vin ∧ m.queryTable t vin = some host

/-! ## Which texts are executed -/

theorem statement_insertDataQuery_nul (m : ScyllaDBManager) {vin host : Bytes}
    (hvin : quote ∉ vin) (hhost : quote ∉ host) (h : ¬ (Plain vin ∧ Plain host)) :
    statement (m.insertDataQuery vin host) = none := by
  rw [statement, readStatement, lex_insertDataQuery]
  by_cases h0 : 0 ∈ vin
  · rw [lex_cString_literal_nul hvin h0]
    rfl
  · have hnul : 0 ∈ host := by
      by_contra hnul
      exact h ⟨⟨hvin, h0⟩, ⟨hhost, hnul⟩⟩
    have hclose (rest : Bytes) : cString (quote :: 44 :: rest) = quote :: 44 :: cString rest := rfl
    rw [cString_append h0, hclose, lex_literal _ _ _ hvin (by decide), lex_between,
      lex_cString_literal_nul hhost hnul]
    rfl

theorem statement_keyed_nul (m : ScyllaDBManager) {head : Bytes} (h0 : 0 ∉ head)
    {hs : List Token}
    (hhead : ∀ x, lex (.code []) (head ++ x) = (lex (.code []) x).map (hs ++ ·)) {vin : Bytes}
    (hvin : quote ∉ vin) (h : ¬ Plain vin) :
    statement (head ++ m.keyspace.name ++ ascii "." ++ m.table.name ++ ascii " WHERE vin = '" ++
      vin ++ ascii "';") = none := by
  have hnul : 0 ∈ vin := by
    by_contra hnul
    exact h ⟨hvin, hnul⟩
  rw [statement, readStatement, lex_keyed m h0 hhead, lex_cString_literal_nul hvin hnul]
  rfl

theorem lex_view_head (x : Bytes) :
    lex (.code []) (ascii "SELECT vin FROM " ++ x) =
      (lex (.code []) x).map ([.word (ascii "SELECT"), .word vinColumn,
        .word (ascii "FROM")] ++ ·) :=
  lex_words [ascii "SELECT", vinColumn, ascii "FROM"] (by decide) x

/-- The query on the view is never executed: its literal has no end. -/
theorem statement_queryMaterializedViewQuery (m : ScyllaDBManager) {host : Bytes}
    (h : quote ∉ host) : statement (m.queryMaterializedViewQuery host) = none := by
  have hopen : lex (.code m.table.name) (ascii "_by_host WHERE host == '" ++ cString host) =
      none := by
    have hliteral : lex (.literal []) (cString host) = none :=
      lex_literal_open (fun hq => h (cString_subset host hq)) []
    simp [lex, ascii, isWord, isDigit, isSpace, startsComment, quote, hliteral]
  rw [statement, readStatement, ScyllaDBManager.queryMaterializedViewQuery,
    cString_names m (by decide) (by decide), lex_view_head, lex_names, hopen]
  rfl

/-! ## Histories -/

def Write.IsPlain : Write → Prop
  | .insertData vin host => Plain vin ∧ Plain host
  | .deleteData vin => Plain vin

instance : DecidablePred Write.IsPlain
  | .insertData _ _ => inferInstanceAs (Decidable (_ ∧ _))
  | .deleteData vin => inferInstanceAs (Decidable (Plain vin))

/-- A call without quotes succeeds exactly if it has no NUL either, and then does what
it should. -/
theorem step_eq_some {m : ScyllaDBManager} {t t' : Table} {w : Write} (hw : w.QuoteFree) :
    m.step t w = some t' ↔ w.IsPlain ∧ t' = w.apply t := by
  by_cases hplain : w.IsPlain
  · have hstep : m.step t w = some (w.apply t) := by
      cases w with
      | insertData vin host =>
          have hsome := (statement_insertDataQuery_iff m vin host).mpr hplain
          have hexec := execute_insertDataQuery m t ⟨vin, hplain.1⟩ ⟨host, hplain.2⟩
          simp only [ScyllaDBManager.step, ScyllaDBManager.executeQuery, Write.query, hexec,
            hsome, Option.isSome_some, Write.apply]
      | deleteData vin =>
          have hsome := (statement_deleteDataQuery_iff m vin).mpr hplain
          have hexec := execute_deleteDataQuery m t ⟨vin, hplain⟩
          simp only [ScyllaDBManager.step, ScyllaDBManager.executeQuery, Write.query, hexec,
            hsome, Option.isSome_some, Write.apply]
    rw [hstep, Option.some.injEq, and_iff_right hplain, eq_comm]
  · have hnone : statement (w.query m) = none := by
      cases w with
      | insertData vin host => exact statement_insertDataQuery_nul m hw.1 hw.2 hplain
      | deleteData vin => exact statement_keyed_nul m (by decide) lex_delete_head hw hplain
    simp [ScyllaDBManager.step, ScyllaDBManager.executeQuery, hnone, hplain]

theorem lastInsert_concat {ws : List Write} {w : Write} {vin host : Bytes} :
    LastInsert (ws ++ [w]) vin host ↔
      w = .insertData vin host ∨ (w.vin ≠ vin ∧ LastInsert ws vin host) := by
  constructor
  · intro h
    rcases h with ⟨pre, post, heq, hpost⟩
    rcases List.eq_nil_or_concat post with hnil | ⟨post', x, hconcat⟩
    · subst hnil
      exact .inl (List.singleton_inj.mp (List.append_inj' heq rfl).2)
    · rw [List.concat_eq_append] at hconcat
      subst hconcat
      rw [← List.cons_append, ← List.append_assoc] at heq
      obtain ⟨hws, hx⟩ := List.append_inj' heq rfl
      refine .inr ⟨?_, pre, post', hws, fun y hy => hpost y (List.mem_append_left _ hy)⟩
      rw [List.singleton_inj.mp hx]
      exact hpost x (by simp)
  · intro h
    rcases h with heq | ⟨hne, pre, post, heq, hpost⟩
    · subst heq
      exact ⟨ws, [], rfl, by simp⟩
    · subst heq
      refine ⟨pre, post ++ [w], by simp, ?_⟩
      intro x hx
      rcases List.mem_append.mp hx with hx | hx
      · exact hpost x hx
      · rw [List.mem_singleton.mp hx]
        exact hne

theorem lookup_apply {t : Table} {w : Write} {vin host : Bytes} :
    (w.apply t).lookup vin = some host ↔
      w = .insertData vin host ∨ (w.vin ≠ vin ∧ t.lookup vin = some host) := by
  cases w with
  | insertData v h =>
      by_cases hv : vin = v
      · subst hv
        simp [Write.apply, Write.vin]
      · rw [Write.apply, AList.lookup_insert_ne hv]
        simp [Write.vin, Ne.symm hv]
  | deleteData v =>
      by_cases hv : vin = v
      · subst hv
        simp [Write.apply, Write.vin]
      · rw [Write.apply, AList.lookup_erase_ne hv]
        simp [Write.vin, Ne.symm hv]

/-- The table holds the last insertions, all of them plain. -/
structure InStep (ws : List Write) (t : Table) : Prop where
  lookup : ∀ vin host, t.lookup vin = some host ↔ LastInsert ws vin host
  plain : ∀ vin host, t.lookup vin = some host → Plain vin

theorem inStep_exec {m : ScyllaDBManager} {ws : List Write} {t : Table}
    (hws : ∀ w ∈ ws, w.QuoteFree) (h : exec m.step ∅ ws = some t) : InStep ws t := by
  refine trace_invariant (fun ws t => (∀ w ∈ ws, w.QuoteFree) → InStep ws t) ?_ ?_ h hws
  · intro _
    refine ⟨fun vin host => ?_, by simp⟩
    simp [LastInsert]
  · intro ws t w t' ih hstep hws
    have hin := ih fun x hx => hws x (List.mem_append_left _ hx)
    obtain ⟨hplain, rfl⟩ := (step_eq_some (hws w (by simp))).mp hstep
    constructor
    · intro vin host
      rw [lookup_apply, lastInsert_concat, hin.lookup]
    · intro vin host hlookup
      rcases lookup_apply.mp hlookup with heq | ⟨-, hlookup⟩
      · subst heq
        exact hplain.1
      · exact hin.plain vin host hlookup

theorem queryTable_eq {m : ScyllaDBManager} {ws : List Write} {t : Table} (h : InStep ws t)
    {vin : Bytes} (hvin : quote ∉ vin) : m.queryTable t vin = t.lookup vin := by
  by_cases hplain : Plain vin
  · exact congrArg Prod.snd (execute_queryTableQuery m t ⟨vin, hplain⟩)
  · have hnone : statement (m.queryTableQuery vin) = none :=
      statement_keyed_nul m (by decide) lex_select_head hvin hplain
    have hrow : t.lookup vin = none := by
      rw [Option.eq_none_iff_forall_ne_some]
      intro host hlookup
      exact hplain (h.plain vin host hlookup)
    rw [ScyllaDBManager.queryTable, ScyllaDBManager.execute, hnone, hrow]

/-- After successful writes without quotes the table is queried right, and the view
exactly for the hosts that are in no row. -/
theorem view_agrees_iff (m : ScyllaDBManager) {ws : List Write} {t : Table}
    (hws : ∀ w ∈ ws, w.QuoteFree) (h : exec m.step ∅ ws = some t) {host : Bytes}
    (hhost : quote ∉ host) :
    (∀ vin host, quote ∉ vin → (m.queryTable t vin = some host ↔ LastInsert ws vin host)) ∧
      (ViewAgrees m t host ↔ ∀ vin, ¬ LastInsert ws vin host) := by
  have hin := inStep_exec hws h
  have hempty : m.queryMaterializedView t host = [] := by
    rw [ScyllaDBManager.queryMaterializedView, statement_queryMaterializedViewQuery m hhost]
  refine ⟨fun vin host hvin => by rw [queryTable_eq hin hvin, hin.lookup], ?_⟩
  rw [ViewAgrees, hempty]
  constructor
  · intro hagrees vin hlast
    have hlookup := (hin.lookup vin host).mpr hlast
    have hvin := (hin.plain vin host hlookup).1
    exact List.not_mem_nil ((hagrees.2 vin).mpr ⟨hvin, (queryTable_eq hin hvin).trans hlookup⟩)
  · intro hnone
    refine ⟨List.nodup_nil, fun vin => iff_of_false List.not_mem_nil ?_⟩
    intro hrow
    rcases hrow with ⟨hvin, hrow⟩
    rw [queryTable_eq hin hvin, hin.lookup] at hrow
    exact hnone vin hrow

/-- The one vehicle is gone again, and no host has one. -/
theorem view_agrees_after_deletion :
    ∃ t, exec defaultManager.step ∅
        [.insertData (ascii "VIN1") (ascii "gw1"), .deleteData (ascii "VIN1")] = some t ∧
      defaultManager.queryTable t (ascii "VIN1") = none ∧
      ViewAgrees defaultManager t (ascii "gw1") := by
  have hinsert : defaultManager.step ∅ (.insertData (ascii "VIN1") (ascii "gw1")) =
      some ((∅ : Table).insert (ascii "VIN1") (ascii "gw1")) :=
    (step_eq_some (by decide)).mpr ⟨by decide, rfl⟩
  have hdelete : defaultManager.step ((∅ : Table).insert (ascii "VIN1") (ascii "gw1"))
      (.deleteData (ascii "VIN1")) =
      some (((∅ : Table).insert (ascii "VIN1") (ascii "gw1")).erase (ascii "VIN1")) :=
    (step_eq_some (by decide)).mpr ⟨by decide, rfl⟩
  have hrun : exec defaultManager.step ∅
      [.insertData (ascii "VIN1") (ascii "gw1"), .deleteData (ascii "VIN1")] =
      some (((∅ : Table).insert (ascii "VIN1") (ascii "gw1")).erase (ascii "VIN1")) := by
    rw [exec_cons, hinsert, Option.bind_some, exec_cons, hdelete]
    rfl
  obtain ⟨htable, hview⟩ := view_agrees_iff defaultManager (by decide) hrun
    (show quote ∉ ascii "gw1" by decide)
  have hgone (vin host : Bytes) : ¬ LastInsert
      [.insertData (ascii "VIN1") (ascii "gw1"), .deleteData (ascii "VIN1")] vin host := by
    have hsplit : [Write.insertData (ascii "VIN1") (ascii "gw1"), .deleteData (ascii "VIN1")] =
        ([] ++ [.insertData (ascii "VIN1") (ascii "gw1")]) ++ [.deleteData (ascii "VIN1")] := rfl
    have hnil : ¬ LastInsert [] vin host := by simp [LastInsert]
    rw [hsplit, lastInsert_concat, lastInsert_concat]
    simp only [Write.vin, hnil, and_false, or_false, reduceCtorEq, false_or, not_and]
    intro hne heq
    exact hne (Write.insertData.inj heq).1
  refine ⟨_, hrun, ?_, hview.mpr fun vin => hgone vin (ascii "gw1")⟩
  rw [Option.eq_none_iff_forall_ne_some]
  intro host hsome
  exact hgone _ host ((htable _ host (by decide)).mp hsome)

/-- A vehicle is in the table with its host, and the query by host does not find it. -/
theorem inserted_vehicle_not_in_view :
    ∃ t, exec defaultManager.step ∅ [.insertData (ascii "VIN1") (ascii "gw1")] = some t ∧
      defaultManager.queryTable t (ascii "VIN1") = some (ascii "gw1") ∧
      defaultManager.queryMaterializedView t (ascii "gw1") = [] ∧
      ¬ ViewAgrees defaultManager t (ascii "gw1") := by
  have hwrite : defaultManager.step ∅ (.insertData (ascii "VIN1") (ascii "gw1")) =
      some ((∅ : Table).insert (ascii "VIN1") (ascii "gw1")) :=
    (step_eq_some (by decide)).mpr ⟨by decide, rfl⟩
  have hrun : exec defaultManager.step ∅ [.insertData (ascii "VIN1") (ascii "gw1")] =
      some ((∅ : Table).insert (ascii "VIN1") (ascii "gw1")) := by
    rw [exec_cons, hwrite]
    rfl
  have hrow : ((∅ : Table).insert (ascii "VIN1") (ascii "gw1")).lookup (ascii "VIN1") =
      some (ascii "gw1") := AList.lookup_insert _
  have htable : defaultManager.queryTable ((∅ : Table).insert (ascii "VIN1") (ascii "gw1"))
      (ascii "VIN1") = some (ascii "gw1") :=
    (queryTable_eq (inStep_exec (by decide) hrun) (by decide)).trans hrow
  have hview : defaultManager.queryMaterializedView
      ((∅ : Table).insert (ascii "VIN1") (ascii "gw1")) (ascii "gw1") = [] := by
    rw [ScyllaDBManager.queryMaterializedView,
      statement_queryMaterializedViewQuery defaultManager (by decide)]
  refine ⟨_, hrun, htable, hview, ?_⟩
  intro hagrees
  have hmem := (hagrees.2 (ascii "VIN1")).mpr ⟨by decide, htable⟩
  rw [hview] at hmem
  exact List.not_mem_nil hmem

end WsGateway.Scylla
