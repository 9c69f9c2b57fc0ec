import Unkey.Base.Protocol

/-!
# The stale-while-revalidate cache

`SWRWithFallback` of `pkg/cache` and the background revalidations it queues, for any keys, values
and origin.
-/

namespace Unkey.Swr

open Unkey.Base

inductive CacheHit where
  | null
  | hit
  | miss
  deriving DecidableEq

inductive WriteOp where
  | noop
  | writeValue
  | writeNull
  deriving DecidableEq

inductive OriginError where
  | notFound
  | failed (message : String)
  deriving DecidableEq

def defaultFindFirstOp : Option OriginError → WriteOp
  | some .notFound => .writeNull
  | none => .writeValue
  | some (.failed _) => .noop

structure Config where
  fresh : Int
  stale : Int
  deriving DecidableEq

structure SwrEntry (V : Type) where
  value : V
  fresh : Int
  stale : Int
  hit : CacheHit
  deriving DecidableEq

structure Cache (K V Req : Type) where
  entries : K → Option (SwrEntry V)
  inflightRefreshes : K → Bool
  revalidateC : List (K × Req)

def Cache.empty {K V Req : Type} : Cache K V Req := ⟨fun _ => none, fun _ => false, []⟩

inductive Lookup (V : Type) where
  | missing
  | fresh (e : SwrEntry V)
  | stale (e : SwrEntry V)
  | expired
  deriving DecidableEq

def Lookup.live {V : Type} : Lookup V → Bool
  | .fresh _ | .stale _ => true
  | .missing | .expired => false

structure Fetched (K V : Type) where
  value : V
  canonicalKey : K
  err : Option OriginError
  deriving DecidableEq

inductive Op (K V Req Ask : Type) where
  | now
  | look (now : Int) (key : K)
  | delete (key : K)
  | store (key : K) (e : SwrEntry V)
  | enqueue (key : K) (req : Req)
  | take
  | refreshed (key : K)
  | ask (q : Ask)
  deriving DecidableEq

section Model

variable {K V Req Ask Note : Type} {Ans : Ask → Type}

abbrev Op.Ret (Ans : Ask → Type) : Op K V Req Ask → Type
  | .now => Int
  | .look _ _ => Lookup V
  | .take => K × Req
  | .ask q => Ans q
  | .delete _ | .store _ _ | .enqueue _ _ | .refreshed _ => Unit

structure Env where
  now : Int
  reachable : Bool
  deriving DecidableEq

def revalidateCapacity : Nat := 1000

def Cache.look (s : Cache K V Req) (now : Int) (key : K) : Lookup V :=
  match s.entries key with
  | none => .missing
  | some e => if now < e.fresh then .fresh e else if now < e.stale then .stale e else .expired

variable [DecidableEq K]

def apply (answer : (q : Ask) → Bool → Ans q) :
    (op : Op K V Req Ask) → Env → Cache K V Req → Option (op.Ret Ans × Cache K V Req)
  | .now, e, s => some (e.now, s)
  | .look now key, _, s => some (s.look now key, s)
  | .delete key, _, s => some ((), { s with entries := Function.update s.entries key none })
  | .store key en, _, s =>
    some ((), { s with entries := Function.update s.entries key (some en) })
  | .enqueue key req, _, s =>
    if s.inflightRefreshes key then some ((), s)
    else if s.revalidateC.length < revalidateCapacity then
      some ((), { s with
        inflightRefreshes := Function.update s.inflightRefreshes key true
        revalidateC := s.revalidateC ++ [(key, req)] })
    else none
  | .take, _, s =>
    match s.revalidateC with
    | [] => none
    | job :: rest => some (job, { s with revalidateC := rest })
  | .refreshed key, _, s =>
    some ((), { s with inflightRefreshes := Function.update s.inflightRefreshes key false })
  | .ask q, e, s => some (answer q e.reachable, s)

end Model

/-! ### Programs -/

section Programs

variable {K V Req Ask Note : Type} {Ans : Ask → Type}

variable (K V Req Note Ans) in
abbrev Code (α : Type) := Prog (Op K V Req Ask) (Op.Ret Ans) Note α

def clockNow : Code K V Req Note Ans Int := Prog.perform Op.now

def look (now : Int) (key : K) : Code K V Req Note Ans (Lookup V) := Prog.perform (Op.look now key)

def delete (key : K) : Code K V Req Note Ans Unit := Prog.perform (Op.delete key)

def store (key : K) (e : SwrEntry V) : Code K V Req Note Ans Unit := Prog.perform (Op.store key e)

def enqueue (key : K) (req : Req) : Code K V Req Note Ans Unit := Prog.perform (Op.enqueue key req)

def take : Code K V Req Note Ans (K × Req) := Prog.perform Op.take

def refreshed (key : K) : Code K V Req Note Ans Unit := Prog.perform (Op.refreshed key)

def ask (q : Ask) : Code K V Req Note Ans (Ans q) := Prog.perform (Op.ask q)

def set (cfg : Config) (key : K) (value : V) : Code K V Req Note Ans Unit := do
  let now ← clockNow
  store key ⟨value, now + cfg.fresh, now + cfg.stale, .hit⟩

def setNull [Inhabited V] (cfg : Config) (key : K) : Code K V Req Note Ans Unit := do
  let now ← clockNow
  store key ⟨default, now + cfg.fresh, now + cfg.stale, .null⟩

def firstLive (req : Req) (now : Int) : List K → Code K V Req Note Ans (Option (SwrEntry V))
  | [] => pure none
  | key :: rest => do
    match ← look now key with
    | .missing => firstLive req now rest
    | .fresh e => pure (some e)
    | .stale e => do
      enqueue key req
      pure (some e)
    | .expired => do
      delete key
      firstLive req now rest

variable [Inhabited V]

def swrWithFallback (cfg : Config) (candidates : List K) (req : Req)
    (refreshFromOrigin : Code K V Req Note Ans (Fetched K V))
    (op : Option OriginError → WriteOp) :
    Code K V Req Note Ans (Except OriginError (V × CacheHit)) := do
  let now ← clockNow
  match ← firstLive req now candidates with
  | some e => pure (.ok (e.value, e.hit))
  | none => do
    let x ← refreshFromOrigin
    match x.err with
    | some err => pure (.error err)
    | none =>
      match op none with
      | .writeValue => do
        set cfg x.canonicalKey x.value
        pure (.ok (x.value, .hit))
      | .writeNull => do
        setNull cfg x.canonicalKey
        pure (.ok (x.value, .null))
      | .noop => pure (.ok (x.value, .miss))

def writeBack (cfg : Config) (op : Option OriginError → WriteOp) (x : Fetched K V) :
    Code K V Req Note Ans Unit :=
  match x.err with
  | some (.failed _) => pure ()
  | err =>
    match op err with
    | .writeValue => set cfg x.canonicalKey x.value
    | .writeNull => setNull cfg x.canonicalKey
    | .noop => pure ()

def revalidateWithCanonicalKey (cfg : Config) (dedupeKey : K)
    (refreshFromOrigin : Code K V Req Note Ans (Fetched K V))
    (op : Option OriginError → WriteOp) : Code K V Req Note Ans Unit := do
  let x ← refreshFromOrigin
  writeBack cfg op x
  refreshed dedupeKey

end Programs

/-! ### Sound caches -/

section Sound

variable {K V Req Ask Note Call : Type} {Ans : Ask → Type}

/-- Every entry is a value that is good for its key, and every queued refresh is sensible. -/
structure Sound (Good : K → V → Prop) (Job : K → Req → Prop) (s : Cache K V Req) : Prop where
  entries : ∀ key e, s.entries key = some e → e.hit = .hit ∧ Good key e.value
  queued : ∀ job ∈ s.revalidateC, Job job.1 job.2

def Op.Proper (Good : K → V → Prop) (Job : K → Req → Prop) : Op K V Req Ask → Prop
  | .store key e => e.hit = .hit ∧ Good key e.value
  | .enqueue key req => Job key req
  | .now | .look _ _ | .delete _ | .take | .refreshed _ | .ask _ => True

variable {Good : K → V → Prop} {Job : K → Req → Prop} {s s' : Cache K V Req}

theorem Sound.empty : Sound Good Job (Cache.empty : Cache K V Req) :=
  ⟨nofun, nofun⟩

theorem Sound.served (hs : Sound Good Job s) {now : Int} {key : K} {e : SwrEntry V}
    (hlook : s.look now key = .fresh e ∨ s.look now key = .stale e) :
    e.hit = .hit ∧ Good key e.value := by
  apply hs.entries
  unfold Cache.look at hlook
  cases hget : s.entries key with
  | none =>
    rw [hget] at hlook
    rcases hlook with hlook | hlook <;> cases hlook
  | some e' => grind

variable [DecidableEq K]

theorem Sound.put (hs : Sound Good Job s) {key : K} {x : Option (SwrEntry V)}
    (hx : ∀ e, x = some e → e.hit = .hit ∧ Good key e.value) :
    Sound Good Job { s with entries := Function.update s.entries key x } := by
  refine ⟨?_, hs.queued⟩
  exact forall_update s.entries (fun key x => ∀ e, x = some e → e.hit = .hit ∧ Good key e.value)
    hs.entries hx

theorem Sound.apply (hs : Sound Good Job s) {answer : (q : Ask) → Bool → Ans q}
    {op : Op K V Req Ask} {e : Env} {r : op.Ret Ans} (hop : op.Proper Good Job)
    (happ : Swr.apply answer op e s = some (r, s')) : Sound Good Job s' := by
  cases op with
  | now | look _ _ | ask _ | refreshed _ =>
    cases happ
    exact ⟨hs.entries, hs.queued⟩
  | delete key =>
    cases happ
    exact hs.put nofun
  | store key e' =>
    cases happ
    refine hs.put ?_
    rintro _ ⟨⟩
    exact hop
  | enqueue key req =>
    simp only [Swr.apply] at happ
    split_ifs at happ
    · cases happ
      exact hs
    · cases happ
      refine ⟨hs.entries, ?_⟩
      intro job hjob
      rcases List.mem_append.mp hjob with hjob | hjob
      · exact hs.queued job hjob
      · rw [List.mem_singleton.mp hjob]
        exact hop
  | take =>
    simp only [Swr.apply] at happ
    split at happ
    · cases happ
    · rename_i job rest hqueue
      cases happ
      refine ⟨hs.entries, ?_⟩
      intro job' hjob'
      exact hs.queued job' (by rw [hqueue]; exact List.mem_cons_of_mem _ hjob')

theorem Sound.taken (hs : Sound Good Job s) {answer : (q : Ask) → Bool → Ans q} {e : Env}
    {job : K × Req} (happ : Swr.apply answer .take e s = some (job, s')) : Job job.1 job.2 := by
  simp only [Swr.apply] at happ
  split at happ
  · cases happ
  · rename_i job' rest hqueue
    cases happ
    exact hs.queued job (by rw [hqueue]; exact List.mem_cons_self)

end Sound

/-! ### Rules for the programs -/

section Rules

variable {K V Req Ask Note Call : Type} {Ans : Ask → Type} [DecidableEq K]

def Kept (Good : K → V → Prop) (Job : K → Req → Prop) (Told : Call → Note → Prop) :
    Assertion (Cache K V Req) Call Note Unit :=
  fun s h _ => Sound Good Job s ∧ ∀ p ∈ h, Told p.1 p.2

def keeping (Good : K → V → Prop) (Job : K → Req → Prop) (Told : Call → Note → Prop)
    (Guard : World (Cache K V Req) Call (Op K V Req Ask) (Op.Ret Ans) Note → Turn Call Env → Prop) :
    Protocol (Cache K V Req) Call (Op K V Req Ask) (Op.Ret Ans) Note Env Unit where
  Inv := Kept Good Job Told
  At := fun _ _ _ => True
  Guard := Guard
  idle := ()

abbrev Gives {α : Type} (P : Protocol (Cache K V Req) Call (Op K V Req Ask) (Op.Ret Ans) Note Env Unit)
    (answer : (q : Ask) → Bool → Ans q) (c : Call) (i : Nat) (p : Code K V Req Note Ans α)
    (F : α → Prop) : Prop :=
  P.Triple (fun _ => apply answer) c i P.Inv p fun a s h gs => F a ∧ P.Inv s h gs

variable {Good : K → V → Prop} {Job : K → Req → Prop} {Told : Call → Note → Prop}
  {Guard : World (Cache K V Req) Call (Op K V Req Ask) (Op.Ret Ans) Note → Turn Call Env → Prop}
  {answer : (q : Ask) → Bool → Ans q} {c : Call} {i : Nat} {α β : Type}

namespace Gives

variable {P : Protocol (Cache K V Req) Call (Op K V Req Ask) (Op.Ret Ans) Note Env Unit}

theorem pure {a : α} {F : α → Prop} (ha : F a) : Gives P answer c i (.done a) F :=
  fun _ _ _ hinv => ⟨ha, hinv⟩

theorem bind {p : Code K V Req Note Ans α} {f : α → Code K V Req Note Ans β} {F : α → Prop}
    {H : β → Prop} (hp : Gives P answer c i p F)
    (hf : ∀ a, F a → Gives P answer c i (f a) H) : Gives P answer c i (p >>= f) H :=
  Protocol.Triple.bind hp fun a _ _ _ ha => hf a ha.1 ha.2

theorem mono {p : Code K V Req Note Ans α} {F H : α → Prop} (hp : Gives P answer c i p F)
    (hF : ∀ a, F a → H a) : Gives P answer c i p H :=
  Protocol.Triple.mono hp fun a _ _ _ ha => ⟨hF a ha.1, ha.2⟩

theorem perform {o : Op K V Req Ask} (ho : o.Proper Good Job) :
    Gives (keeping Good Job Told Guard) answer c i (Prog.perform o) fun r => ∃ w e s',
      w.IsAt i c o ∧ Guard w (.run i e) ∧ Sound Good Job w.shared ∧
        apply answer o e w.shared = some (r, s') := by
  intro s h gs hkept
  refine Protocol.Triple.perform (g := ()) trivial ?_ hkept
  intro w gs' e r s' hd _ hat hguard happ
  obtain ⟨hsound, htold⟩ : Kept Good Job Told w.shared w.history gs' := hd.inv
  exact ⟨⟨w, e, s', hat, hguard, hsound, happ⟩, hsound.apply ho happ, htold⟩

theorem ask (q : Ask) : Gives (keeping Good Job Told Guard) answer c i (Swr.ask q) fun r =>
    ∃ w e, Guard w (.run i e) ∧ r = answer q e.reachable := by
  refine (Gives.perform (o := .ask q) trivial).mono ?_
  rintro r ⟨w, e, s', -, hguard, -, happ⟩
  cases happ
  exact ⟨w, e, hguard, rfl⟩

end Gives

theorem gives_set (cfg : Config) {key : K} {value : V} (hgood : Good key value) :
    Gives (keeping Good Job Told Guard) answer c i (set cfg key value) fun _ => True :=
  (Gives.perform (o := .now) trivial).bind fun _ _ =>
    (Gives.perform (o := .store key _) ⟨rfl, hgood⟩).mono fun _ _ => trivial

theorem gives_firstLive {S : K → Prop} {req : Req} {now : Int} {keys : List K}
    (hS : ∀ w e now key, w.IsAt i c (.look now key) → Guard w (.run i e) →
      (w.shared.look now key).live = true → S key)
    (hjob : ∀ key ∈ keys, ∀ v, Good key v → Job key req) :
    Gives (keeping Good Job Told Guard) answer c i (firstLive req now keys) fun found =>
      ∀ e, found = some e → e.hit = .hit ∧ ∃ key ∈ keys, S key ∧ Good key e.value := by
  induction keys with
  | nil => exact .pure nofun
  | cons key rest ih =>
    have hrest := (ih fun k hk => hjob k (List.mem_cons_of_mem _ hk)).mono
      (H := fun found => ∀ e, found = some e →
        e.hit = .hit ∧ ∃ key' ∈ key :: rest, S key' ∧ Good key' e.value)
      fun found hfound e he => by
        obtain ⟨hhit, k, hk, hgood⟩ := hfound e he
        exact ⟨hhit, k, List.mem_cons_of_mem _ hk, hgood⟩
    refine (Gives.perform (o := .look now key) trivial).bind ?_
    rintro r ⟨w, e, s', hat, hguard, hsound, happ⟩
    cases happ
    have hkey : (w.shared.look now key).live = true → S key := hS w e now key hat hguard
    cases hlook : w.shared.look now key with
    | missing => exact hrest
    | fresh en =>
      obtain ⟨hhit, hgood⟩ := hsound.served (.inl hlook)
      refine .pure ?_
      rintro _ ⟨⟩
      exact ⟨hhit, key, List.mem_cons_self, hkey (by rw [hlook]; rfl), hgood⟩
    | stale en =>
      obtain ⟨hhit, hgood⟩ := hsound.served (.inr hlook)
      refine (Gives.perform (o := .enqueue key req) (hjob key List.mem_cons_self _ hgood)).bind
        fun _ _ => .pure ?_
      rintro _ ⟨⟩
      exact ⟨hhit, key, List.mem_cons_self, hkey (by rw [hlook]; rfl), hgood⟩
    | expired => exact (Gives.perform (o := .delete key) trivial).bind fun _ _ => hrest

variable [Inhabited V] {cfg : Config} {refresh : Code K V Req Note Ans (Fetched K V)}
  {F : Fetched K V → Prop}

theorem gives_swrWithFallback {S : K → Prop} {candidates : List K} {req : Req}
    (hS : ∀ w e now key, w.IsAt i c (.look now key) → Guard w (.run i e) →
      (w.shared.look now key).live = true → S key)
    (hjob : ∀ key ∈ candidates, ∀ v, Good key v → Job key req)
    (hrefresh : Gives (keeping Good Job Told Guard) answer c i refresh F)
    (hgood : ∀ x, F x → x.err = none → Good x.canonicalKey x.value) :
    Gives (keeping Good Job Told Guard) answer c i
      (swrWithFallback cfg candidates req refresh defaultFindFirstOp) fun r =>
        (∃ v, r = .ok (v, .hit) ∧ ∃ key ∈ candidates, S key ∧ Good key v) ∨
        ∃ x, F x ∧ r = match x.err with
          | none => .ok (x.value, .hit)
          | some err => .error err := by
  refine (Gives.perform (o := .now) trivial).bind fun _ _ => ?_
  refine (gives_firstLive hS hjob).bind ?_
  rintro (_ | en) hfound
  · -- a miss
    refine hrefresh.bind fun x hx => ?_
    cases herr : x.err with
    | some err => exact .pure (.inr ⟨x, hx, by rw [herr]⟩)
    | none =>
      exact (gives_set cfg (hgood x hx herr)).bind fun _ _ => .pure (.inr ⟨x, hx, by rw [herr]⟩)
  · obtain ⟨hhit, hkey⟩ := hfound en rfl
    exact .pure (.inl ⟨en.value, by rw [hhit], hkey⟩)

theorem gives_revalidateWithCanonicalKey {dedupeKey : K}
    (hrefresh : Gives (keeping Good Job Told Guard) answer c i refresh F)
    (hgood : ∀ x, F x → x.err = none → Good x.canonicalKey x.value)
    (hfound : ∀ x, F x → x.err ≠ some .notFound) :
    Gives (keeping Good Job Told Guard) answer c i
      (revalidateWithCanonicalKey cfg dedupeKey refresh defaultFindFirstOp) fun _ => True := by
  refine hrefresh.bind fun x hx => ?_
  have hwritten : Gives (keeping Good Job Told Guard) answer c i
      (writeBack cfg defaultFindFirstOp x) fun _ => True := by
    unfold writeBack
    cases herr : x.err with
    | none => exact gives_set cfg (hgood x hx herr)
    | some err =>
      cases err with
      | failed message => exact .pure trivial
      | notFound => exact absurd herr (hfound x hx)
  exact hwritten.bind fun _ _ =>
    (Gives.perform (o := .refreshed dedupeKey) trivial).mono fun _ _ => trivial

end Rules

end Unkey.Swr
