import Mathlib
import Unkey.Base.GoString

/-!
# The deployment comment of a pull request

All deployments of a pull request share one comment.
-/

namespace Unkey.GithubStatus

open Unkey.Base

abbrev Text := List Char

/-- What is used of the pattern `^[a-z0-9]+(-[a-z0-9]+)*$`. -/
structure Slug where
  text : Text
  chars : ∀ c ∈ text, c = '-' ∨ 'a' ≤ c ∧ c ≤ 'z' ∨ '0' ≤ c ∧ c ≤ '9'
  head : text.head? ≠ some '-'
  deriving DecidableEq

structure Url where
  text : Text
  oneLine : '\n' ∉ text

/-- A time in the format `Jan 2, 2006 3:04pm`. -/
structure Stamp where
  text : Text
  chars : ∀ c ∈ text, c ≠ '\n' ∧ c ≠ '<' ∧ c ≠ '-'

structure Target where
  project : Slug
  app : Slug
  env : Slug
  deriving DecidableEq

structure InitRequest where
  target : Target
  environmentUrl : Url
  logUrl : Url

inductive DeploymentState
  | unspecified
  | pending
  | inProgress
  | success
  | failure
  | error
  | inactive
  | queued

def DeploymentState.toString : DeploymentState → String
  | .unspecified | .inProgress => "in_progress"
  | .pending => "pending"
  | .success => "success"
  | .failure => "failure"
  | .error => "error"
  | .inactive => "inactive"
  | .queued => "queued"

def stateLabel (state : String) : String :=
  if state = "pending" then "Queued"
  else if state = "in_progress" then "Building"
  else if state = "success" then "Ready"
  else if state = "failure" ∨ state = "error" then "Failed"
  else "In Progress"

/-! ### Texts -/

def prCommentMainMarker : Text := "<!-- unkey-deploy -->".toList

def rowMarker (app env : Slug) : Text :=
  "<!-- row:".toList ++ app.text ++ ':' :: env.text ++ ' ' :: "-->".toList

def nameLabel (t : Target) : Text :=
  if t.app.text ≠ "default".toList then t.project.text ++ " / ".toList ++ t.app.text
  else t.project.text

def preview (url : Url) : Text :=
  if url.text ≠ [] then "[Visit Preview](".toList ++ url.text ++ ")".toList else "—".toList

def buildRow (req : InitRequest) (status : String) (now : Stamp) : Text :=
  "| ".toList ++ rowMarker req.target.app req.target.env ++ " **".toList ++ nameLabel req.target ++
    "** (".toList ++ req.target.env.text ++ ") | ".toList ++ status.toList ++ " | ".toList ++
    preview req.environmentUrl ++ " | [Inspect](".toList ++ req.logUrl.text ++ ") | ".toList ++
    now.text ++ " |".toList

def introduction : Text :=
  ("**The latest updates on your projects.** Learn more about " ++
    "[Unkey Deploy](https://www.unkey.com/docs/deployments)").toList

def headerLine : Text := "| Name | Status | Preview | Inspect | Updated (UTC) |".toList

def separatorLine : Text := "|:--|:--|:--|:--|:--|".toList

/-- The lines above the rows. -/
def preamble : List Text := [prCommentMainMarker, introduction, [], headerLine, separatorLine]

def lines (body : Text) : List Text := body.splitOn '\n'

def unlines (parts : List Text) : Text := ['\n'].intercalate parts

def buildFullComment (firstRow : Text) : Text := unlines (preamble ++ [firstRow, []])

def replaceFirst (marker newRow : Text) : List Text → Option (List Text)
  | [] => none
  | line :: rest =>
    if marker <:+: line then some (newRow :: rest)
    else (replaceFirst marker newRow rest).map (line :: ·)

def isTableRow (line : Text) : Prop := ['|'] <+: line ∧ ¬ ":--".toList <:+: line

instance (line : Text) : Decidable (isTableRow line) := inferInstanceAs (Decidable (_ ∧ _))

/-- Adds the row behind the last table row. -/
def insertAfterLast (newRow : Text) : List Text → Option (List Text)
  | [] => none
  | line :: rest =>
    match insertAfterLast newRow rest with
    | some rest' => some (line :: rest')
    | none => if isTableRow line then some (line :: newRow :: rest) else none

-- The first line never counts as a table row.
def appendRow (newRow : Text) : List Text → Option (List Text)
  | [] => none
  | first :: rest => (insertAfterLast newRow rest).map (first :: ·)

def upsertRow (app env : Slug) (body newRow : Text) : Text :=
  match replaceFirst (rowMarker app env) newRow (lines body) with
  | some replaced => unlines replaced
  | none =>
    match appendRow newRow (lines body) with
    | some appended => unlines appended
    | none => body ++ newRow ++ ['\n']

/-! ### Calls -/

variable {δ : Type} [DecidableEq δ]

structure State (δ : Type) where
  comment : Option Text
  config : δ → Option InitRequest

inductive Call (δ : Type)
  | init (deployment : δ) (req : InitRequest) (now : Stamp)
  | reportStatus (deployment : δ) (state : DeploymentState) (now : Stamp)

def findBotComment (s : State δ) : Option Text := s.comment.filter (prCommentMainMarker <:+: ·)

def step (s : State δ) : Call δ → State δ
  | .init deployment req now =>
    let row := buildRow req "Queued" now
    let body := match findBotComment s with
      | some body => upsertRow req.target.app req.target.env body row
      | none => buildFullComment row
    ⟨some body, Function.update s.config deployment (some req)⟩
  | .reportStatus deployment state now =>
    match s.config deployment with
    | none => s
    | some req =>
      let row := buildRow req (stateLabel state.toString) now
      match findBotComment s with
      | none => s
      | some body => { s with comment := some (upsertRow req.target.app req.target.env body row) }

/-- The state after the calls; the latest comes first. -/
def after : List (Call δ) → State δ
  | [] => ⟨none, fun _ => none⟩
  | call :: earlier => step (after earlier) call

/-- The row a call builds. -/
def builtRow (s : State δ) : Call δ → Option (Target × Text)
  | .init _ req now => some (req.target, buildRow req "Queued" now)
  | .reportStatus deployment state now => (s.config deployment).map fun req =>
      (req.target, buildRow req (stateLabel state.toString) now)

/-- The row of the latest call of a target. -/
def latest : List (Call δ) → Target → Option Text
  | [], _ => none
  | call :: earlier, t =>
    match builtRow (after earlier) call with
    | none => latest earlier t
    | some (caller, row) => if caller = t then some row else latest earlier t

/-- The comment shows exactly the latest rows, each once and in one table. -/
def ShowsLatest (calls : List (Call δ)) : Prop :=
  ∃ rows : List (Target × Text), (rows.map Prod.fst).Nodup ∧
    (∀ t row, (t, row) ∈ rows ↔ latest calls t = some row) ∧
    (after calls).comment.map lines =
      if rows = [] then none else some (preamble ++ (rows.map Prod.snd ++ [[]]))

/-! ### Rows -/

/-- An address without the start of a marker and without the rule of a table. -/
def Tame (url : Url) : Prop := '<' ∉ url.text ∧ url.text.IsChain fun a b => ¬ (a = ':' ∧ b = '-')

structure IsRow (t : Target) (row : Text) : Prop where
  oneLine : '\n' ∉ row
  table : isTableRow row
  own : ∀ app env, rowMarker app env <:+: row ↔ app = t.app ∧ env = t.env

theorem Slug.ne_of_mem {s : Slug} {c d : Char} (hc : c ∈ s.text)
    (hd : ¬ (d = '-' ∨ 'a' ≤ d ∧ d ≤ 'z' ∨ '0' ≤ d ∧ d ≤ '9')) : c ≠ d := by
  rintro rfl
  exact hd (s.chars c hc)

theorem Slug.text_inj {s s' : Slug} (h : s.text = s'.text) : s = s' := by
  cases s
  cases s'
  cases h
  rfl

def Quiet (text : Text) : Prop := ∀ c ∈ text, c ≠ '\n' ∧ c ≠ '<'

theorem quiet_append {a b : Text} (ha : Quiet a) (hb : Quiet b) : Quiet (a ++ b) :=
  List.forall_mem_append.mpr ⟨ha, hb⟩

theorem Slug.quiet (s : Slug) : Quiet s.text := fun _ hc =>
  ⟨Slug.ne_of_mem hc (by decide), Slug.ne_of_mem hc (by decide)⟩

theorem Url.quiet {url : Url} (h : Tame url) : Quiet url.text := fun _ hc =>
  ⟨fun heq => url.oneLine (heq ▸ hc), fun heq => h.1 (heq ▸ hc)⟩

/-- No hyphen right after a colon, as the separator of the table has. -/
def Unruled (text : Text) : Prop := text.IsChain fun a b => ¬ (a = ':' ∧ b = '-')

instance (text : Text) : Decidable (Quiet text) :=
  List.decidableBAll (fun c => c ≠ '\n' ∧ c ≠ '<') text

instance (text : Text) : Decidable (Unruled text) := inferInstanceAs (Decidable (text.IsChain _))

theorem unruled_append {a b : Text} (ha : Unruled a) (hb : Unruled b)
    (h : a.getLast? ≠ some ':' ∨ b.head? ≠ some '-') : Unruled (a ++ b) := by
  refine ha.append hb ?_
  rintro x hx y hy ⟨rfl, rfl⟩
  exact h.elim (· hx) (· hy)

theorem unruled_of_not_mem {text : Text} (h : ':' ∉ text) : Unruled text := by
  refine List.isChain_iff_forall_rel_of_append_cons_cons.mpr ?_
  rintro a b l r rfl ⟨rfl, -⟩
  exact h (by simp)

theorem Slug.unruled (s : Slug) : Unruled s.text :=
  unruled_of_not_mem fun hc => Slug.ne_of_mem hc (by decide) rfl

theorem Stamp.unruled (now : Stamp) : Unruled now.text := by
  refine List.isChain_iff_forall_rel_of_append_cons_cons.mpr ?_
  intro a b l r heq hab
  exact (now.chars b (by simp [heq])).2.2 hab.2

/-- The part of a row behind the first character of its marker. -/
def rowTail (req : InitRequest) (status : String) (now : Stamp) : Text :=
  "!-- row:".toList ++ (req.target.app.text ++ ':' :: (req.target.env.text ++
    ' ' :: ("-->".toList ++ (" **".toList ++ (nameLabel req.target ++ ("** (".toList ++ (req.target.env.text ++
    (") | ".toList ++ (status.toList ++ (" | ".toList ++ (preview req.environmentUrl ++
    (" | [Inspect](".toList ++ (req.logUrl.text ++ (") | ".toList ++
    (now.text ++ " |".toList)))))))))))))))

variable {req : InitRequest} {status : String} {now : Stamp}

theorem markerStart : "<!-- row:".toList = '<' :: "!-- row:".toList := by decide

theorem buildRow_eq : buildRow req status now = "| ".toList ++ '<' :: rowTail req status now := by
  unfold buildRow rowMarker rowTail
  rw [markerStart]
  simp only [List.append_assoc, List.cons_append]

theorem rowMarker_eq (app env : Slug) : rowMarker app env = '<' :: ("!-- row:".toList ++
    (app.text ++ ':' :: (env.text ++ ' ' :: "-->".toList))) := by
  unfold rowMarker
  rw [markerStart]
  simp only [List.append_assoc, List.cons_append]

theorem quiet_nameLabel (t : Target) : Quiet (nameLabel t) := by
  unfold nameLabel
  split
  · exact quiet_append (quiet_append t.project.quiet (by decide)) t.app.quiet
  · exact t.project.quiet

theorem quiet_preview {url : Url} (h : Tame url) : Quiet (preview url) := by
  unfold preview
  split
  · exact quiet_append (quiet_append (by decide) (Url.quiet h)) (by decide)
  · decide

theorem unruled_nameLabel (t : Target) : Unruled (nameLabel t) := by
  refine unruled_of_not_mem fun hc => ?_
  unfold nameLabel at hc
  split at hc
  · rw [List.mem_append, List.mem_append] at hc
    obtain (hc | hc) | hc := hc
    · exact Slug.ne_of_mem hc (by decide) rfl
    · exact absurd hc (by decide)
    · exact Slug.ne_of_mem hc (by decide) rfl
  · exact Slug.ne_of_mem hc (by decide) rfl

theorem unruled_preview {url : Url} (h : Tame url) : Unruled (preview url) := by
  unfold preview
  split
  · rw [List.append_assoc]
    refine unruled_append (by decide) ?_ (.inl (by decide))
    exact unruled_append h.2 (by decide) (.inr (by decide))
  · decide

theorem quiet_rowTail (now : Stamp) (henv : Tame req.environmentUrl) (hlog : Tame req.logUrl)
    (hstatus : Quiet status.toList) : Quiet (rowTail req status now) := by
  have hnow : Quiet now.text := fun c hc => ⟨(now.chars c hc).1, (now.chars c hc).2.1⟩
  have happend : ∀ {a b : Text}, Quiet a → Quiet b → Quiet (a ++ b) := quiet_append
  have hcons : ∀ {c : Char} {b : Text}, c ≠ '\n' ∧ c ≠ '<' → Quiet b → Quiet (c :: b) :=
    fun hc hb => List.forall_mem_cons.mpr ⟨hc, hb⟩
  refine happend (by decide) <| happend req.target.app.quiet <| hcons (by decide) <|
    happend req.target.env.quiet <| hcons (by decide) <| happend (by decide) <|
    happend (by decide) <| happend (quiet_nameLabel _) <|
    happend (by decide) <| happend req.target.env.quiet <| happend (by decide) <|
    happend hstatus <| happend (by decide) <| happend (quiet_preview henv) <|
    happend (by decide) <| happend (Url.quiet hlog) <| happend (by decide) <|
    happend hnow (by decide)

theorem head?_slug_append {s : Slug} {rest : Text} (h : rest.head? ≠ some '-') :
    (s.text ++ rest).head? ≠ some '-' := by
  cases htext : s.text with
  | nil => exact h
  | cons c cs =>
    have hhead := s.head
    rw [htext] at hhead
    exact hhead

theorem head?_append_ne (text : Text) (hne : text ≠ []) (h : text.head? ≠ some '-') (rest : Text) :
    (text ++ rest).head? ≠ some '-' := by
  rwa [List.head?_append_of_ne_nil text hne]

theorem unruled_rowTail (henv : Tame req.environmentUrl) (hlog : Tame req.logUrl)
    (hstatus : ':' ∉ status.toList) : Unruled (rowTail req status now) := by
  have hlast : ∀ (s : Slug), s.text.getLast? ≠ some ':' := fun s hlast =>
    Slug.ne_of_mem (List.mem_of_getLast? hlast) (by decide) rfl
  have hcons : ∀ (c : Char) (b : Text), Unruled b → b.head? ≠ some '-' → Unruled (c :: b) :=
    fun c b hb hhead => unruled_append (List.isChain_singleton c) hb (.inr hhead)
  have hblank : ∀ b : Text, Unruled b → Unruled (' ' :: b) := fun b hb =>
    unruled_append (List.isChain_singleton ' ') hb (.inl (by decide))
  refine unruled_append (by decide) ?_ (.inr (head?_slug_append (by simp)))
  refine unruled_append (Slug.unruled _) ?_ (.inl (hlast _))
  refine hcons _ _ ?_ (head?_slug_append (by simp))
  refine unruled_append (Slug.unruled _) ?_ (.inl (hlast _))
  refine hblank _ ?_
  refine unruled_append (by decide) ?_ (.inl (by decide))
  refine unruled_append (by decide) ?_ (.inl (by decide))
  refine unruled_append (unruled_nameLabel _) ?_ (.inr (head?_append_ne _ (by decide) (by decide) _))
  refine unruled_append (by decide) ?_ (.inl (by decide))
  refine unruled_append (Slug.unruled _) ?_ (.inl (hlast _))
  refine unruled_append (by decide) ?_ (.inl (by decide))
  refine unruled_append (unruled_of_not_mem hstatus) ?_ (.inr (head?_append_ne _ (by decide) (by decide) _))
  refine unruled_append (by decide) ?_ (.inl (by decide))
  refine unruled_append (unruled_preview henv) ?_ (.inr (head?_append_ne _ (by decide) (by decide) _))
  refine unruled_append (by decide) ?_ (.inl (by decide))
  refine unruled_append hlog.2 ?_ (.inr (head?_append_ne _ (by decide) (by decide) _))
  refine unruled_append (by decide) ?_ (.inl (by decide))
  exact unruled_append (Stamp.unruled now) (by decide) (.inr (by decide))

theorem marker_infix_iff (henv : Tame req.environmentUrl) (hlog : Tame req.logUrl)
    (hstatus : Quiet status.toList) (app env : Slug) :
    rowMarker app env <:+: buildRow req status now ↔
      app = req.target.app ∧ env = req.target.env := by
  constructor
  · rintro ⟨before, behind, heq⟩
    have hquiet := quiet_rowTail now henv hlog hstatus
    rw [buildRow_eq, rowMarker_eq] at heq
    simp only [List.append_assoc, List.cons_append] at heq
    obtain ⟨-, -, htail⟩ := (List.append_cons_inj_of_notMem (by decide)
      (fun hmem => (hquiet _ hmem).2 rfl)).mp heq.symm
    unfold rowTail at htail
    obtain ⟨happ, henv⟩ := append_cons_inj (fun hc => Slug.ne_of_mem hc (by decide) rfl)
      (fun hc => Slug.ne_of_mem hc (by decide) rfl) (List.append_cancel_left htail)
    obtain ⟨henv, -⟩ := append_cons_inj (fun hc => Slug.ne_of_mem hc (by decide) rfl)
      (fun hc => Slug.ne_of_mem hc (by decide) rfl) henv
    exact ⟨Slug.text_inj happ.symm, Slug.text_inj henv.symm⟩
  · rintro ⟨rfl, rfl⟩
    unfold buildRow
    simp only [List.append_assoc]
    exact (List.prefix_append _ _).isInfix.trans (List.suffix_append _ _).isInfix

theorem isRow_buildRow (henv : Tame req.environmentUrl) (hlog : Tame req.logUrl)
    (hstatus : Quiet status.toList ∧ ':' ∉ status.toList) :
    IsRow req.target (buildRow req status now) := by
  have hquiet := quiet_rowTail now henv hlog hstatus.1
  refine ⟨?_, ⟨⟨_, by rw [buildRow_eq]; rfl⟩, ?_⟩, marker_infix_iff henv hlog hstatus.1⟩
  · rw [buildRow_eq, List.mem_append, List.mem_cons]
    rintro (hc | hc | hc)
    · exact absurd hc (by decide)
    · exact absurd hc (by decide)
    · exact (hquiet _ hc).1 rfl
  · intro hinside
    have hrow : Unruled (buildRow req status now) := by
      rw [buildRow_eq, List.append_cons]
      exact unruled_append (by decide) (unruled_rowTail henv hlog hstatus.2) (.inl (by decide))
    have hruled := hrow.infix hinside
    exact absurd hruled (by decide)

theorem label_plain (state : DeploymentState) :
    Quiet (stateLabel state.toString).toList ∧ ':' ∉ (stateLabel state.toString).toList := by
  cases state <;> decide

/-! ### Lines of the comment -/

theorem replaceFirst_append {marker : Text} (newRow : Text) {line : Text} {above : List Text}
    (below : List Text)
    (habove : ∀ l ∈ above, ¬ marker <:+: l) (hline : marker <:+: line) :
    replaceFirst marker newRow (above ++ line :: below) = some (above ++ newRow :: below) := by
  induction above with
  | nil => rw [List.nil_append, List.nil_append, replaceFirst, if_pos hline]
  | cons first above ih =>
    rw [List.cons_append, replaceFirst, if_neg (habove first List.mem_cons_self),
      ih fun l hl => habove l (List.mem_cons_of_mem first hl)]
    rfl

theorem replaceFirst_eq_none {marker newRow : Text} {all : List Text}
    (h : ∀ l ∈ all, ¬ marker <:+: l) : replaceFirst marker newRow all = none := by
  induction all with
  | nil => rfl
  | cons first all ih =>
    rw [replaceFirst, if_neg (h first List.mem_cons_self),
      ih fun l hl => h l (List.mem_cons_of_mem first hl)]
    rfl

theorem insertAfterLast_append (newRow : Text) {line : Text} (above : List Text) {below : List Text}
    (hline : isTableRow line) (hbelow : ∀ l ∈ below, ¬ isTableRow l) :
    insertAfterLast newRow (above ++ line :: below) = some (above ++ line :: newRow :: below) := by
  have hnone : insertAfterLast newRow below = none := by
    induction below with
    | nil => rfl
    | cons first below ih =>
      rw [insertAfterLast, ih fun l hl => hbelow l (List.mem_cons_of_mem first hl)]
      exact if_neg (hbelow first List.mem_cons_self)
  induction above with
  | nil =>
    rw [List.nil_append, List.nil_append, insertAfterLast, hnone]
    exact if_pos hline
  | cons first above ih => rw [List.cons_append, insertAfterLast, ih, List.cons_append]

theorem lines_unlines {parts : List Text} (hne : parts ≠ []) (h : ∀ l ∈ parts, '\n' ∉ l) :
    lines (unlines parts) = parts := List.splitOn_intercalate '\n' h hne

theorem not_marker_of_mem_preamble {app env : Slug} {line : Text} (h : line ∈ preamble) :
    ¬ rowMarker app env <:+: line := by
  -- a marker has both characters, no line above the rows does
  have hfixed : ∀ line ∈ preamble, '<' ∉ line ∨ 'w' ∉ line := by decide +kernel
  have hw : 'w' ∈ "!-- row:".toList := by decide
  intro hinside
  rw [rowMarker_eq] at hinside
  obtain hnot | hnot := hfixed line h
  · exact hnot (hinside.subset List.mem_cons_self)
  · exact hnot (hinside.subset (List.mem_cons_of_mem _ (List.mem_append_left _ hw)))

variable {rows : List (Target × Text)}

/-- The lines of a comment with these rows. -/
def commentLines (rows : List (Target × Text)) : List Text :=
  preamble ++ (rows.map Prod.snd ++ [[]])

theorem lines_unlines_comment (rows : List (Target × Text)) (h : ∀ r ∈ rows, '\n' ∉ r.2) :
    lines (unlines (commentLines rows)) = commentLines rows := by
  refine lines_unlines (List.cons_ne_nil _ _) ?_
  have hfixed : ∀ l ∈ preamble, '\n' ∉ l := by decide +kernel
  intro l hl
  rw [commentLines, List.mem_append, List.mem_append, List.mem_singleton] at hl
  obtain hl | hl | rfl := hl
  · exact hfixed l hl
  · obtain ⟨r, hr, rfl⟩ := List.mem_map.mp hl
    exact h r hr
  · exact List.not_mem_nil

/-- A target and its row in the table. -/
def putRow (rows : List (Target × Text)) (t : Target) (row : Text) : List (Target × Text) :=
  if t ∈ rows.map Prod.fst then rows.map fun r => if r.1 = t then (t, row) else r
  else rows ++ [(t, row)]

theorem map_fst_putRow (t : Target) (row : Text) : (putRow rows t row).map Prod.fst =
    if t ∈ rows.map Prod.fst then rows.map Prod.fst else rows.map Prod.fst ++ [t] := by
  unfold putRow
  split
  · rw [List.map_map]
    refine List.map_congr_left fun r _ => ?_
    by_cases hr : r.1 = t
    · simp [hr]
    · simp [hr]
  · simp

theorem nodup_putRow (h : (rows.map Prod.fst).Nodup) (t : Target) (row : Text) :
    ((putRow rows t row).map Prod.fst).Nodup := by
  rw [map_fst_putRow]
  split
  · exact h
  · rename_i hfresh
    rw [List.nodup_append]
    refine ⟨h, List.nodup_singleton t, fun x hx y hy heq => hfresh ?_⟩
    rw [← List.mem_singleton.mp hy, ← heq]
    exact hx

theorem mem_putRow {t t' : Target} {row row' : Text} : (t', row') ∈ putRow rows t row ↔
    if t = t' then row = row' else (t', row') ∈ rows := by
  unfold putRow
  split
  · rename_i hmem
    obtain ⟨old, hold, hfst⟩ := List.mem_map.mp hmem
    rw [List.mem_map]
    constructor
    · rintro ⟨r, hr, heq⟩
      by_cases hrt : r.1 = t
      · rw [if_pos hrt] at heq
        cases heq
        rw [if_pos rfl]
      · rw [if_neg hrt] at heq
        subst heq
        rw [if_neg (Ne.symm hrt)]
        exact hr
    · split
      · rename_i ht
        rintro rfl
        exact ⟨old, hold, by rw [if_pos hfst, ht]⟩
      · rename_i ht
        exact fun hr => ⟨_, hr, if_neg (Ne.symm ht)⟩
  · rename_i hfresh
    rw [List.mem_append, List.mem_singleton, Prod.mk.injEq]
    split
    · rename_i ht
      subst ht
      have hnot : (t, row') ∉ rows := fun hr => hfresh (List.mem_map_of_mem hr)
      simp [hnot, eq_comm]
    · rename_i ht
      simp [Ne.symm ht]

/-- Rows of distinct targets, where an app and an environment belong to one target. -/
structure Table (rows : List (Target × Text)) : Prop where
  nodup : (rows.map Prod.fst).Nodup
  isRow : ∀ r ∈ rows, IsRow r.1 r.2

theorem lines_upsertRow (htable : Table rows) (hne : rows ≠ []) {t : Target} {row : Text}
    (hrow : IsRow t row)
    (hown : ∀ r ∈ rows, t.app = r.1.app → t.env = r.1.env → t = r.1) {body : Text}
    (hbody : lines body = commentLines rows) :
    lines (upsertRow t.app t.env body row) = commentLines (putRow rows t row) := by
  have hline : ∀ r ∈ putRow rows t row, '\n' ∉ r.2 := by
    intro r hr
    have hr := mem_putRow.mp hr
    split at hr
    · exact hr ▸ hrow.oneLine
    · exact (htable.isRow r hr).oneLine
  have hother : ∀ r ∈ rows, r.1 ≠ t → ¬ rowMarker t.app t.env <:+: r.2 := by
    intro r hr hrt hinside
    obtain ⟨happ, henv⟩ := ((htable.isRow r hr).own t.app t.env).mp hinside
    exact hrt (hown r hr happ henv).symm
  rw [← lines_unlines_comment _ hline]
  refine congrArg lines ?_
  unfold upsertRow
  rw [hbody]
  by_cases hmem : t ∈ rows.map Prod.fst
  · -- the row of the target is found by its marker
    obtain ⟨old, hold, rfl⟩ := List.mem_map.mp hmem
    obtain ⟨above, below, rfl⟩ := List.append_of_mem hold
    have hnodup := htable.nodup
    rw [List.map_append, List.map_cons, List.nodup_append, List.nodup_cons] at hnodup
    have habove : ∀ r ∈ above, r.1 ≠ old.1 := fun r hr heq => hnodup.2.2 r.1
      (List.mem_map_of_mem hr) old.1 List.mem_cons_self heq
    have hbelow : ∀ r ∈ below, r.1 ≠ old.1 := fun r hr heq =>
      hnodup.2.1.1 (heq ▸ List.mem_map_of_mem hr)
    have hkept : ∀ {l : List (Target × Text)}, (∀ r ∈ l, r.1 ≠ old.1) →
        l.map (fun r => if r.1 = old.1 then (old.1, row) else r) = l := fun hl =>
      (List.map_congr_left fun r hr => if_neg (hl r hr)).trans (List.map_id _)
    have hput : putRow (above ++ old :: below) old.1 row = above ++ (old.1, row) :: below := by
      rw [putRow, if_pos hmem, List.map_append, List.map_cons, if_pos rfl, hkept habove,
        hkept hbelow]
    have hlines : commentLines (above ++ old :: below) =
        (preamble ++ above.map Prod.snd) ++ old.2 :: (below.map Prod.snd ++ [[]]) := by
      simp only [commentLines, List.map_append, List.map_cons, List.append_assoc, List.cons_append]
    rw [hlines, replaceFirst_append _ _ _ (((htable.isRow old hold).own _ _).mpr ⟨rfl, rfl⟩), hput]
    · simp only [commentLines, List.map_append, List.map_cons, List.append_assoc,
        List.cons_append]
    · intro l hl
      obtain hl | hl := List.mem_append.mp hl
      · exact not_marker_of_mem_preamble hl
      · obtain ⟨r, hr, rfl⟩ := List.mem_map.mp hl
        exact hother r (List.mem_append_left _ hr) (habove r hr)
  · -- no line has the marker, and the last row of the table is the last table line
    have hnone : replaceFirst (rowMarker t.app t.env) row (commentLines rows) = none := by
      refine replaceFirst_eq_none fun l hl => ?_
      rw [commentLines, List.mem_append, List.mem_append, List.mem_singleton] at hl
      obtain hl | hl | rfl := hl
      · exact not_marker_of_mem_preamble hl
      · obtain ⟨r, hr, rfl⟩ := List.mem_map.mp hl
        exact hother r hr fun heq => hmem (heq ▸ List.mem_map_of_mem hr)
      · rw [rowMarker_eq]
        exact fun hinside => List.not_mem_nil (hinside.subset List.mem_cons_self)
    obtain ⟨above, last, rfl⟩ : ∃ above last, rows = above ++ [last] :=
      ⟨rows.dropLast, rows.getLast hne, (List.dropLast_append_getLast hne).symm⟩
    have hlast : isTableRow last.2 := (htable.isRow last (by simp)).table
    have hbelow : ∀ l ∈ [([] : Text)], ¬ isTableRow l := by
      intro l hl htable
      rw [List.mem_singleton.mp hl] at htable
      exact absurd htable.1 (by simp)
    have happend := insertAfterLast_append row (preamble.tail ++ above.map Prod.snd)
      hlast hbelow
    have hlines : commentLines (above ++ [last]) = prCommentMainMarker ::
        ((preamble.tail ++ above.map Prod.snd) ++ last.2 :: [[]]) := by
      simp only [commentLines, preamble, List.tail_cons, List.map_append, List.map_cons,
        List.map_nil, List.append_assoc, List.cons_append, List.nil_append]
    rw [hnone, hlines]
    simp only [appendRow, happend, Option.map_some]
    rw [putRow, if_neg hmem]
    simp only [commentLines, preamble, List.tail_cons, List.map_append, List.map_cons,
      List.map_nil, List.append_assoc, List.cons_append, List.nil_append]

omit [DecidableEq δ] in
theorem findBotComment_of_lines {s : State δ} {body : Text} (hcomment : s.comment = some body)
    (hbody : lines body = commentLines rows) : findBotComment s = some body := by
  have hmarker : prCommentMainMarker <:+: body := by
    have hjoin : unlines (lines body) = body := List.intercalate_splitOn '\n'
    rw [← hjoin, hbody]
    exact ⟨[], _, rfl⟩
  rw [findBotComment, hcomment, Option.filter_some, if_pos (decide_eq_true hmarker)]

/-! ### Runs -/

def requests : List (Call δ) → List InitRequest
  | [] => []
  | .init _ req _ :: earlier => req :: requests earlier
  | .reportStatus _ _ _ :: earlier => requests earlier

variable {calls earlier : List (Call δ)}

/-- No two projects share an app and an environment, and the addresses have neither the start of a
marker nor the rule of a table. -/
structure Apart (calls : List (Call δ)) : Prop where
  tame : ∀ req ∈ requests calls, Tame req.environmentUrl ∧ Tame req.logUrl
  project : ∀ req ∈ requests calls, ∀ req' ∈ requests calls, req.target.app = req'.target.app →
    req.target.env = req'.target.env → req.target.project = req'.target.project

structure Inv (calls : List (Call δ)) (rows : List (Target × Text)) : Prop where
  table : Table rows
  shown : ∀ t row, (t, row) ∈ rows ↔ latest calls t = some row
  comment : (after calls).comment.map lines = if rows = [] then none else some (commentLines rows)
  asked : ∀ r ∈ rows, ∃ req ∈ requests calls, req.target = r.1
  config : ∀ deployment req, (after calls).config deployment = some req →
    req ∈ requests calls ∧ req.target ∈ rows.map Prod.fst

omit [DecidableEq δ] in
theorem comment_step {s : State δ} (hcomment : s.comment.map lines =
      if rows = [] then none else some (commentLines rows)) :
    (rows = [] ∧ findBotComment s = none) ∨
      rows ≠ [] ∧ ∃ body, findBotComment s = some body ∧ lines body = commentLines rows := by
  by_cases hrows : rows = []
  · rw [if_pos hrows, Option.map_eq_none_iff] at hcomment
    exact .inl ⟨hrows, by rw [findBotComment, hcomment]; rfl⟩
  · rw [if_neg hrows, Option.map_eq_some_iff] at hcomment
    obtain ⟨body, hbody, hlines⟩ := hcomment
    exact .inr ⟨hrows, body, findBotComment_of_lines hbody hlines, hlines⟩

omit [DecidableEq δ] in
theorem requests_cons (call : Call δ) {req : InitRequest} (h : req ∈ requests earlier) :
    req ∈ requests (call :: earlier) := by
  cases call with
  | init _ _ _ => exact List.mem_cons_of_mem _ h
  | reportStatus _ _ _ => exact h

/-- A call that builds a row puts it into the table. -/
theorem inv_of_built {call : Call δ} {req : InitRequest} (row : Text) (hinv : Inv earlier rows)
    (hapart : Apart (call :: earlier)) (hreq : req ∈ requests (call :: earlier))
    (hrow : IsRow req.target row)
    (hbuilt : builtRow (after earlier) call = some (req.target, row))
    (hconfig : ∀ deployment other, (step (after earlier) call).config deployment = some other →
      other = req ∨ (after earlier).config deployment = some other)
    (hcomment : (step (after earlier) call).comment = some (match findBotComment (after earlier) with
      | some body => upsertRow req.target.app req.target.env body row
      | none => buildFullComment row)) :
    Inv (call :: earlier) (putRow rows req.target row) := by
  have hown : ∀ r ∈ rows, req.target.app = r.1.app → req.target.env = r.1.env →
      req.target = r.1 := by
    intro r hr happ henv
    obtain ⟨other, hother, heq⟩ := hinv.asked r hr
    have hproject := hapart.project req hreq other (requests_cons call hother)
      (by rw [heq, happ]) (by rw [heq, henv])
    rw [heq] at hproject
    cases htarget : req.target with
    | mk project app env =>
      rw [htarget] at happ henv hproject
      cases happ
      cases henv
      cases hproject
      rfl
  have hput : putRow rows req.target row ≠ [] := fun hnil => by
    have hmem : (req.target, row) ∈ putRow rows req.target row :=
      mem_putRow.mpr (by rw [if_pos rfl])
    rw [hnil] at hmem
    exact List.not_mem_nil hmem
  refine ⟨⟨nodup_putRow hinv.table.nodup _ _, fun r hr => ?_⟩, fun t row' => ?_, ?_,
    fun r hr => ?_, fun deployment other hother => ?_⟩
  · have hr := mem_putRow.mp hr
    split at hr
    · rename_i ht
      exact ht ▸ hr ▸ hrow
    · exact hinv.table.isRow r hr
  · rw [mem_putRow, latest, hbuilt]
    dsimp only
    split
    · rw [Option.some.injEq]
    · exact hinv.shown t row'
  · rw [after, hcomment, if_neg hput, Option.map_some]
    refine congrArg some ?_
    obtain ⟨rfl, hfind⟩ | ⟨hne, body, hfind, hbody⟩ := comment_step hinv.comment
    · rw [hfind]
      refine lines_unlines_comment [(req.target, row)] fun r hr => ?_
      rw [List.mem_singleton.mp hr]
      exact hrow.oneLine
    · rw [hfind]
      exact lines_upsertRow hinv.table hne hrow hown hbody
  · have hr := mem_putRow.mp hr
    split at hr
    · rename_i ht
      exact ⟨req, hreq, ht⟩
    · obtain ⟨other, hother, heq⟩ := hinv.asked r hr
      exact ⟨other, requests_cons call hother, heq⟩
  · rw [map_fst_putRow]
    obtain rfl | hold := hconfig deployment other hother
    · refine ⟨hreq, ?_⟩
      split
      · assumption
      · exact List.mem_append_right _ (List.mem_singleton_self _)
    · obtain ⟨hmem, htarget⟩ := hinv.config deployment other hold
      refine ⟨requests_cons call hmem, ?_⟩
      split
      · exact htarget
      · exact List.mem_append_left _ htarget

theorem exists_inv (hapart : Apart calls) : ∃ rows, Inv calls rows := by
  induction calls with
  | nil => exact ⟨[], ⟨⟨List.nodup_nil, by simp⟩, by simp [latest], rfl, by simp, by simp [after]⟩⟩
  | cons call earlier ih =>
    obtain ⟨rows, hinv⟩ := ih ⟨fun req hreq => hapart.tame req (requests_cons call hreq),
      fun req hreq req' hreq' => hapart.project req (requests_cons call hreq) req'
        (requests_cons call hreq')⟩
    cases call with
    | init deployment req now =>
      have hreq : req ∈ requests (.init deployment req now :: earlier) := List.mem_cons_self
      have htame := hapart.tame req hreq
      refine ⟨_, inv_of_built (buildRow req "Queued" now) hinv hapart hreq
        (isRow_buildRow htame.1 htame.2 (by decide)) rfl ?_ rfl⟩
      intro other config hconfig
      by_cases hother : other = deployment
      · subst hother
        exact .inl (by simpa [step] using hconfig.symm)
      · exact .inr (by simpa [step, hother] using hconfig)
    | reportStatus deployment state now =>
      cases hconfig : (after earlier).config deployment with
      | none =>
        have hstep : step (after earlier) (.reportStatus deployment state now) = after earlier := by
          simp only [step, hconfig]
        refine ⟨rows, ⟨hinv.table, fun t row => ?_, ?_, hinv.asked, ?_⟩⟩
        · rw [latest, builtRow, hconfig]
          exact hinv.shown t row
        · rw [after, hstep]
          exact hinv.comment
        · rw [after, hstep]
          exact hinv.config
      | some req =>
        obtain ⟨hreq, htarget⟩ := hinv.config deployment req hconfig
        have htame := hapart.tame req (requests_cons _ hreq)
        have hrows : rows ≠ [] := by
          rintro rfl
          exact List.not_mem_nil htarget
        obtain ⟨hnil, -⟩ | ⟨-, body, hfind, -⟩ := comment_step hinv.comment
        · exact absurd hnil hrows
        · refine ⟨_, inv_of_built (buildRow req (stateLabel state.toString) now) hinv hapart
            (requests_cons _ hreq) (isRow_buildRow htame.1 htame.2 (label_plain state)) ?_ ?_ ?_⟩
          · rw [builtRow, hconfig]
            rfl
          · intro other config hother
            simp only [step, hconfig, hfind] at hother
            exact .inr hother
          · simp only [step, hconfig, hfind]

/-- As long as no two projects share an app and an environment and no address breaks the table, the
comment shows the latest row of every target that has called, and nothing else. -/
theorem comment_shows_latest (hapart : Apart calls) : ShowsLatest calls := by
  obtain ⟨rows, hinv⟩ := exists_inv hapart
  exact ⟨rows, hinv.table.nodup, hinv.shown, hinv.comment⟩

/-- A project overwrites the row of another one with the same app and environment. -/
theorem not_shown_of_shared {deployment deployment' : δ} {req req' : InitRequest}
    (hapart : Apart [Call.init deployment req now]) (happ : req'.target.app = req.target.app)
    (henv : req'.target.env = req.target.env) (hproject : req'.target ≠ req.target)
    (htame : Tame req'.environmentUrl ∧ Tame req'.logUrl) :
    ¬ ShowsLatest [Call.init deployment' req' now, Call.init deployment req now] := by
  rintro ⟨rows, hnodup, hshown, hcomment⟩
  have hreq := hapart.tame req List.mem_cons_self
  have hrow : IsRow req.target (buildRow req "Queued" now) :=
    isRow_buildRow hreq.1 hreq.2 (by decide)
  have hrow' : IsRow req'.target (buildRow req' "Queued" now) :=
    isRow_buildRow htame.1 htame.2 (by decide)
  have hlines := lines_unlines_comment [(req.target, buildRow req "Queued" now)]
    fun r hr => List.mem_singleton.mp hr ▸ hrow.oneLine
  have hlines' := lines_unlines_comment [(req.target, buildRow req' "Queued" now)]
    fun r hr => List.mem_singleton.mp hr ▸ hrow'.oneLine
  have hfind : findBotComment (after [Call.init deployment req now]) =
      some (buildFullComment (buildRow req "Queued" now)) := findBotComment_of_lines rfl hlines
  have hreplaced := replaceFirst_append (buildRow req' "Queued" now) [[]]
    (fun l hl => not_marker_of_mem_preamble hl)
    ((hrow.own req'.target.app req'.target.env).mpr ⟨happ, henv⟩)
  have hafter : (after [Call.init deployment' req' now, Call.init deployment req now]).comment =
      some (unlines (commentLines [(req.target, buildRow req' "Queued" now)])) := by
    rw [after, step, hfind]
    refine congrArg some ?_
    dsimp only [upsertRow]
    have hbody : lines (buildFullComment (buildRow req "Queued" now)) =
        preamble ++ buildRow req "Queued" now :: [[]] := hlines
    rw [hbody, hreplaced]
    rfl
  have hfirst : (req.target, buildRow req "Queued" now) ∈ rows := by
    rw [hshown, latest, builtRow]
    simp [latest, builtRow, hproject]
  have hsecond : (req'.target, buildRow req' "Queued" now) ∈ rows := by
    rw [hshown, latest, builtRow]
    simp
  have hne : rows ≠ [] := List.ne_nil_of_mem hfirst
  rw [hafter, Option.map_some, hlines', if_neg hne] at hcomment
  have hlength := congrArg List.length (Option.some.inj hcomment)
  simp only [commentLines, List.length_append, List.length_map, List.length_cons,
    List.length_nil] at hlength
  obtain ⟨r, hr⟩ := List.length_eq_one_iff.mp (show rows.length = 1 by omega)
  rw [hr, List.mem_singleton] at hfirst hsecond
  exact hproject (congrArg Prod.fst (hsecond.trans hfirst.symm))

def slug (text : String)
    (chars : (text.toList.all fun c => c = '-' ∨ 'a' ≤ c ∧ c ≤ 'z' ∨ '0' ≤ c ∧ c ≤ '9') = true)
    (head : text.toList.head? ≠ some '-') : Slug :=
  ⟨text.toList, fun c hc => of_decide_eq_true (List.all_eq_true.mp chars c hc), head⟩

def sampleRequest (project : Slug) : InitRequest where
  target := ⟨project, slug "default" (by decide) (by decide), slug "preview" (by decide) (by decide)⟩
  environmentUrl := ⟨[], by decide⟩
  logUrl := ⟨"https://app.unkey.com/d1".toList, by decide⟩

def sampleNow : Stamp :=
  ⟨"Nov 2, 2026 3:04pm".toList, List.all_iff_forall_prop.mp (by decide)⟩

theorem tame_sampleRequest (project : Slug) :
    Tame (sampleRequest project).environmentUrl ∧ Tame (sampleRequest project).logUrl :=
  ⟨⟨by simp [sampleRequest], by simp [sampleRequest]⟩,
    ⟨(by decide : '<' ∉ "https://app.unkey.com/d1".toList),
      (by decide : Unruled "https://app.unkey.com/d1".toList)⟩⟩

theorem apart_sampleRequest (project : Slug) :
    Apart [Call.init true (sampleRequest project) sampleNow] := by
  constructor
  · intro req hreq
    rw [List.mem_singleton.mp hreq]
    exact tame_sampleRequest project
  · intro req hreq req' hreq' _ _
    rw [List.mem_singleton.mp hreq, List.mem_singleton.mp hreq']

def workerRequest (project : Slug) : InitRequest :=
  { sampleRequest project with
    target := { (sampleRequest project).target with app := slug "worker" (by decide) (by decide) } }

/-- Two apps of a project, the first of which reports again after the second has called. -/
def twoApps (project : Slug) : List (Call Bool) :=
  [.reportStatus true .success sampleNow, .init false (workerRequest project) sampleNow,
    .init true (sampleRequest project) sampleNow]

theorem apart_twoApps (project : Slug) : Apart (twoApps project) := by
  have hrequests : ∀ req ∈ requests (twoApps project),
      req = workerRequest project ∨ req = sampleRequest project := fun _ => List.mem_pair.mp
  constructor
  · intro req hreq
    rcases hrequests req hreq with rfl | rfl <;> exact tame_sampleRequest project
  · intro req hreq req' hreq' _ _
    rcases hrequests req hreq with rfl | rfl <;> rcases hrequests req' hreq' with rfl | rfl <;> rfl

theorem comment_shows_latest_two :
    ShowsLatest (twoApps (slug "acme" (by decide) (by decide))) :=
  comment_shows_latest (apart_twoApps _)

/-- Two projects whose only app is `default`. -/
theorem projects_share_row : ¬ ShowsLatest
    [Call.init false (sampleRequest (slug "beta" (by decide) (by decide))) sampleNow,
      Call.init true (sampleRequest (slug "acme" (by decide) (by decide))) sampleNow] :=
  not_shown_of_shared (apart_sampleRequest _) rfl rfl (by decide) (tame_sampleRequest _)

end Unkey.GithubStatus
