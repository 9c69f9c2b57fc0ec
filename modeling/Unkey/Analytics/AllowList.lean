import Unkey.Analytics.Accepted

/-!
# The allow-list of qualified tables

A name counts as a `WITH` name before it is looked up in the allow-list, and it is split at its dot
only afterwards.
-/

namespace Unkey.Analytics

open Unkey.Base

variable (u : Casing) (cfg : Config)

def Listed (tableName : String) : Prop :=
  tableName ∈ cfg.allowedTables ∧ isSystemTable u tableName = false

instance (tableName : String) : Decidable (Listed u cfg tableName) := by
  unfold Listed
  infer_instance

def QualifiedListed (q : SelectQuery) : Prop :=
  ∀ x ∈ q.uses false [], ∀ database ∈ x.table.database,
    Listed u cfg (database.name ++ "." ++ x.table.table.name)

instance (q : SelectQuery) : Decidable (QualifiedListed u cfg q) := by
  unfold QualifiedListed
  infer_instance

/-- No reference that the rewriter takes for a `WITH` name has a name of two parts,
unless the allow-list has that name too. -/
def NoDottedCTE (stmt : SelectQuery) : Prop :=
  ∀ x ∈ stmt.uses cfg.capped [],
    (split '.' (physicalName cfg x.table)).length = 2 →
    isCTE u (buildCTERegistry u stmt) (physicalName cfg x.table) = true →
    Listed u cfg (physicalName cfg x.table)

theorem split_two {s a b : String} (h : split '.' s = [a, b]) : a ++ "." ++ b = s := by
  have hj : ['.'].intercalate (s.toList.splitOn '.') = s.toList := List.intercalate_splitOn '.'
  simp only [split] at h
  generalize s.toList.splitOn '.' = parts at h hj
  match parts, h with
  | [x, y], h =>
    obtain ⟨rfl, h'⟩ := List.cons.inj h
    obtain ⟨rfl, -⟩ := List.cons.inj h'
    rw [← String.toList_inj, ← hj]
    simp [List.intercalate]

theorem identifierOf_database {name : String} {database : Ident}
    (h : (identifierOf name).database = some database) :
    (split '.' name).length = 2 ∧
      database.name ++ "." ++ (identifierOf name).table.name = name := by
  simp only [identifierOf] at h ⊢
  split at h
  · grind [Option.some.inj, Ident.plain, split_two]
  · cases h

theorem identifierOf_two {name : String} (h : (split '.' name).length = 2) :
    ∃ database, (identifierOf name).database = some database := by
  obtain ⟨a, b, hs⟩ := List.length_eq_two.mp h
  exact ⟨.plain a, by rw [identifierOf, hs]⟩

theorem validateTable_ok {cteNames : List String} {t : TableIdentifier}
    (h : validateTable u cfg cteNames t = .ok ()) :
    isCTE u cteNames (physicalName cfg t) = true ∨ Listed u cfg (physicalName cfg t) := by
  simp only [validateTable] at h
  split at h
  · cases h
  · split at h
    · cases h
    · rename_i _ hallowed
      simp only [isTableAllowed, Bool.not_eq_true', Bool.not_eq_false] at hallowed
      split at hallowed
      · exact .inl ‹_›
      · split at hallowed
        · cases hallowed
        · split at hallowed
          · cases hallowed
          · exact .inr ⟨by simpa using hallowed, by simpa using ‹¬isSystemTable u _ = true›⟩

/-- The qualified tables of an accepted query are on the allow-list exactly when no
reference borrows a dotted name from the `WITH` list. -/
theorem parse_qualified_listed_iff (parseStmts : String → Except String (List Stmt))
    (timeRange : SelectQuery → Except Fault Unit) (query : String) (stmt out : SelectQuery)
    (hstmt : parseStmts query = .ok [.select stmt])
    (h : parse parseStmts u timeRange cfg query = .ok out) :
    QualifiedListed u cfg out ↔ NoDottedCTE u cfg stmt := by
  obtain ⟨htables, -, rfl⟩ := rewrite_ok u cfg (parse_ok u cfg hstmt h)
  have huses : ∀ x ∈ stmt.uses cfg.capped [],
      isCTE u (buildCTERegistry u stmt) (physicalName cfg x.table) = true ∨
        Listed u cfg (physicalName cfg x.table) := by
    intro x hx
    have hmet := SelectQuery.uses_met cfg.capped [] stmt x hx
    exact validateTable_ok u cfg (htables x.table hmet.visited)
  rw [QualifiedListed, rewritten_uses]
  constructor
  · intro hlisted x hx htwo _
    obtain ⟨database, hd⟩ := identifierOf_two htwo
    have hl := hlisted _ (List.mem_map_of_mem hx) database hd
    exact (identifierOf_database hd).2 ▸ hl
  · intro hdotted y hy database hd
    obtain ⟨x, hx, rfl⟩ := List.mem_map.mp hy
    obtain ⟨htwo, hname⟩ := identifierOf_database hd
    show Listed u cfg (database.name ++ "." ++ (identifierOf (physicalName cfg x.table)).table.name)
    rw [hname]
    exact (huses x hx).elim (hdotted x hx htwo) id

theorem parse_qualified_listed_iff_recent :
    parse (fun _ => .ok [.select recentKeys]) .ascii (fun _ => pure ()) keysConfig "" =
        .ok (rewritten .ascii keysConfig recentKeys) ∧
      (QualifiedListed .ascii keysConfig (rewritten .ascii keysConfig recentKeys) ↔
        NoDottedCTE .ascii keysConfig recentKeys) :=
  ⟨rfl, parse_qualified_listed_iff _ _ (fun _ => .ok [.select recentKeys]) (fun _ => pure ()) ""
    _ _ rfl rfl⟩

/-- ``WITH `system.tables` AS (SELECT key_id FROM keys_v1) SELECT name FROM system.tables``. -/
def dottedCTE : SelectQuery :=
  selectFrom
    [.query (.ident ⟨"system.tables", .backTicks⟩) (selectFrom [] "key_id" (keysTable "keys_v1"))]
    "name" (.table ⟨some (.plain "system"), .plain "tables"⟩ none)

theorem dottedCTE_reads_system_table :
    ∃ out, parse (fun _ => .ok [.select dottedCTE]) .ascii (fun _ => pure ()) keysConfig "" =
        .ok out ∧
      ¬ QualifiedListed .ascii keysConfig out :=
  ⟨rewritten .ascii keysConfig dottedCTE, rfl, by decide⟩

end Unkey.Analytics
