import Mathlib.Logic.Relation
import StyleModules.Proofs.Project.Restamping

/-!
# Changes one by one

Operations change files by writing texts and by moving what stands at a path. A world reaches
another by changes of a kind if such changes, one after the other, and reports lead from the first
to the second (`World.Reaches`). An operation keeps to a kind of changes if it reaches its last
world by them, whether it ends with a value or with a fault (`Session.Keeps`). If every change of
the kind is seen only where its paths lead, then so is all that an operation does
(`World.Reaches.exists_of_seen_ne`). A loop makes the changes of the items that it takes up before
one of them fails (`Session.reaches_each`).
-/

namespace StyleModules

/-- A change of files. -/
inductive Change where
  /-- Write a text to the file at a path. -/
  | write (path : Path) (t : Text)
  /-- Move what stands at a path to another. -/
  | move (source target : Path)

/-- The paths that a change is about. -/
def Change.paths : Change → List Path
  | write path _ => [path]
  | move source target => [source, target]

namespace World

variable {world mid after : World} {allowed : World → Change → Prop} {location : Location}

/-- The world after a change. -/
def perform (world : World) : Change → Except AccessError World
  | .write path t => world.writeBytes path (encodeText t)
  | .move source target => world.movePath source target

/-- Where a change can be seen: at the place of the file that is written; at the two places of a
move and below them, since a directory takes along what is in it. -/
def Covers (world : World) (location : Location) : Change → Prop
  | .write path _ => world.locate path = .ok location
  | .move source target => ∃ base, base <+: location ∧
      (world.locate source = .ok base ∨ world.locate target = .ok base)

/-- One report, or one change of the kind allowed. -/
inductive Step (allowed : World → Change → Prop) (world : World) : World → Prop
  | report (notice : Notice) : Step allowed world (world.report notice)
  | change {change : Change} {next : World} (hallowed : allowed world change)
    (hperform : world.perform change = .ok next) : Step allowed world next

/-- Reports and changes of the kind allowed lead from one world to the other. -/
def Reaches (allowed : World → Change → Prop) : World → World → Prop :=
  Relation.ReflTransGen (Step allowed)

/-- More changes may be allowed than were made. -/
theorem Reaches.mono {more : World → Change → Prop} (h : Reaches allowed world after)
    (hmore : ∀ mid change, allowed mid change → more mid change) : Reaches more world after := by
  refine Relation.ReflTransGen.mono (fun mid next hstep => ?_) _ _ h
  cases hstep with
  | report notice => exact .report notice
  | change hallowed hperform => exact .change (hmore _ _ hallowed) hperform

/-- What is kept by every change of the kind is kept by all of them. -/
theorem Reaches.keeps (property : World → Prop) (h : Reaches allowed world after)
    (hreport : ∀ mid notice, property mid → property (mid.report notice))
    (hchange : ∀ mid change next, allowed mid change → mid.perform change = .ok next →
      property mid → property next) (hworld : property world) : property after := by
  induction h with
  | refl => exact hworld
  | tail _ hstep ih =>
    cases hstep with
    | report notice => exact hreport _ notice ih
    | change hallowed hperform => exact hchange _ _ _ hallowed hperform ih

/-- What is seen otherwise at a location has come by a change that covers the location. -/
theorem Reaches.exists_of_seen_ne (h : Reaches allowed world after)
    (hcovers : ∀ mid change next, allowed mid change → mid.perform change = .ok next →
      next.store.seen location ≠ mid.store.seen location → mid.Covers location change)
    (hne : after.store.seen location ≠ world.store.seen location) :
    ∃ mid change next, Reaches allowed world mid ∧ allowed mid change ∧
      mid.perform change = .ok next ∧ Reaches allowed next after ∧ mid.Covers location change := by
  induction h with
  | refl => exact absurd rfl hne
  | @tail last after hbefore hstep ih =>
    by_cases hsame : after.store.seen location = last.store.seen location
    · -- The last step is not seen there, so an earlier one is.
      rw [hsame] at hne
      obtain ⟨mid, change, next, hmid, hallowed, hperform, hnext, hcovered⟩ := ih hne
      exact ⟨mid, change, next, hmid, hallowed, hperform, hnext.tail hstep, hcovered⟩
    · cases hstep with
      | report notice => exact absurd rfl hsame
      | @change change _ hallowed hperform =>
        exact ⟨last, change, after, hbefore, hallowed, hperform, .refl,
          hcovers last change after hallowed hperform hsame⟩

end World

namespace Session

open World

variable {α β : Type} {allowed : World → Change → Prop} {before : World → Prop}
  {action : Session α} {result : α → World → Prop}

/-- Besides, whatever comes of it, the operation reaches its last world by changes of the kind
allowed. -/
structure Keeps (allowed : World → Change → Prop) (before : World → Prop) (action : Session α)
    (result : α → World → Prop) : Prop extends Ensures before action result where
  reaches : ∀ world, before world → Reaches allowed world (action.exec world).2

namespace Keeps

/-- An operation that changes nothing keeps to every kind of change. -/
theorem of_still (h : Ensures before action result) (hstill : ∀ world, (action.exec world).2 = world) :
    Keeps allowed before action result :=
  ⟨h, fun world _ => by rw [hstill world]; exact .refl⟩

/-- Giving a value changes nothing. -/
theorem pure (value : α) (h : ∀ world, before world → result value world) :
    Keeps allowed before (Pure.pure value) result := of_still (.pure value h) fun _ => rfl

/-- Looking at the world changes nothing. -/
theorem look (view : World → α) :
    Keeps allowed before (Session.look view) fun value world =>
      before world ∧ value = view world := of_still (.look view) fun _ => rfl

/-- Passing a result on changes nothing. -/
theorem lift (outcome : Except Fault α) :
    Keeps allowed before (liftM outcome : Session α) fun value world =>
      before world ∧ outcome = .ok value := by
  cases outcome with
  | ok value =>
    refine of_still ⟨?_⟩ fun _ => rfl
    rintro world _ _ hbefore ⟨⟩
    exact ⟨hbefore, rfl⟩
  | error fault =>
    refine of_still ⟨?_⟩ fun _ => rfl
    rintro world _ _ _ ⟨⟩

/-- Reading a text changes nothing. -/
theorem readText (path : Path) : Keeps allowed before (Session.readText path) fun _ => before := by
  refine of_still (.readText path) fun world => ?_
  rw [Session.readText, exec_bind (exec_look _ world)]
  split
  · rfl
  · split
    · rfl
    · rfl

/-- An operation may start from less. -/
theorem of_imp {start : World → Prop} (h : Keeps allowed before action result)
    (himp : ∀ world, start world → before world) : Keeps allowed start action result :=
  ⟨h.toEnsures.of_imp himp, fun world hstart => h.reaches world (himp world hstart)⟩

/-- What has nothing to do with the world may be taken for granted. -/
theorem of_fact {fact : Prop} (h : fact → Keeps allowed before action result) :
    Keeps allowed (fun world => before world ∧ fact) action result where
  holds world value after hbefore := (h hbefore.2).holds world value after hbefore.1
  reaches world hbefore := (h hbefore.2).reaches world hbefore.1

/-- Operations in a row keep to the kind of change that both keep to. -/
theorem bind {goal : β → World → Prop} {next : α → Session β}
    (h : Keeps allowed before action result)
    (hnext : ∀ value, Keeps allowed (result value) (next value) goal) :
    Keeps allowed before (action >>= next) goal where
  toEnsures := h.toEnsures.bind fun value => (hnext value).toEnsures
  reaches world hbefore := by
    have hfirst := h.reaches world hbefore
    cases hexec : action.exec world with
    | mk outcome mid =>
      rw [hexec] at hfirst
      cases outcome with
      | error fault =>
        rw [exec_bind_error hexec]
        exact hfirst
      | ok value =>
        rw [exec_bind hexec]
        exact hfirst.trans ((hnext value).reaches mid (h.holds world value mid hbefore hexec))

/-- A choice of operations goes on as the chosen one. -/
theorem ite_bind {goal : β → World → Prop} {condition : Prop} [Decidable condition]
    {other : Session α} {next : α → Session β}
    (h : Keeps allowed before (if condition then action else other) result)
    (hnext : ∀ value, Keeps allowed (result value) (next value) goal) :
    Keeps allowed before (if condition then action >>= next else other >>= next) goal := by
  rw [← apply_ite (· >>= next)]
  exact h.bind hnext

/-- A record of the log changes no file. -/
theorem log (level : Level) (message : Text) :
    Keeps allowed before (Session.log level message) fun _ _ => True where
  holds _ _ _ _ _ := trivial
  reaches _ _ := .single (.report _)

/-- A change is of the kind allowed if its acts are. -/
theorem change {act : World → Except AccessError World} (path : Path)
    (h : ∀ world next, before world → act world = .ok next →
      ∃ change, allowed world change ∧ world.perform change = .ok next) :
    Keeps allowed before (Session.change path act) fun _ _ => True where
  holds _ _ _ _ _ := trivial
  reaches world hbefore := by
    have hget : (get : Session World).exec world = (.ok world, world) := rfl
    rw [Session.change, exec_bind hget]
    split
    · exact .refl
    · next next hnext =>
      obtain ⟨change, hallowed, hperform⟩ := h world next hbefore hnext
      exact .single (.change hallowed hperform)

/-- Writing a text is one write. -/
theorem writeText {path : Path} {t : Text}
    (h : ∀ world, before world → allowed world (.write path t)) :
    Keeps allowed before (Session.writeText path t) fun _ _ => True :=
  .change path fun world _ hbefore hnext => ⟨.write path t, h world hbefore, hnext⟩

/-- A file is written, and the write is reported. -/
theorem writeAndLog {path : Path} {t : Text} (level : Level) (message : Text) {value : α}
    (h : ∀ world, before world → allowed world (.write path t))
    (hvalue : ∀ world, result value world) :
    Keeps allowed before (do Session.writeText path t; Session.log level message; return value)
      result :=
  (writeText h).bind fun _ => (log level message).bind fun _ => pure value fun world _ => hvalue world

/-- Moving a path is one move. -/
theorem movePath {source target : Path}
    (h : ∀ world, before world → allowed world (.move source target)) :
    Keeps allowed before (Session.movePath source target) fun _ _ => True :=
  .change source fun world _ hbefore hnext => ⟨.move source target, h world hbefore, hnext⟩

end Keeps

section Each

variable {ι γ : Type} {world : World}

/-- The items that are taken up one after the other, until one of them ends with a fault. -/
def taken (act : ι → Session α) : List ι → World → List ι
  | [], _ => []
  | item :: rest, world =>
    item :: match (act item).exec world with
      | (.ok _, mid) => taken act rest mid
      | (.error _, _) => []

/-- An item that is taken is one of the items. -/
theorem mem_of_mem_taken {act : ι → Session α} {items : List ι} {item : ι}
    (h : item ∈ taken act items world) : item ∈ items := by
  induction items generalizing world with
  | nil => exact h
  | cons first rest ih =>
    rw [taken, List.mem_cons] at h
    rcases h with rfl | h
    · exact List.mem_cons_self
    · split at h
      · exact List.mem_cons_of_mem _ (ih h)
      · cases h

/-- An operation that changes nothing may follow. -/
theorem exec_bind_still {next : α → Session β}
    (hstill : ∀ value world, ((next value).exec world).2 = world) :
    ((action >>= next).exec world).2 = (action.exec world).2 := by
  cases hexec : action.exec world with
  | mk outcome mid =>
    cases outcome with
    | error fault => rw [exec_bind_error hexec]
    | ok value => rw [exec_bind hexec, hstill]

/-- Whatever comes of a loop, it makes the changes of the items that are taken up. -/
theorem reaches_each (act : ι → Session α) (each : List ι → Session γ) {none : γ}
    (join : α → γ → γ) (hnil : each [] = pure none)
    (hcons : ∀ item rest, each (item :: rest) = do
      let first ← act item
      let later ← each rest
      return join first later)
    {items : List ι} {allowed : ι → World → Change → Prop}
    (h : ∀ item ∈ items, Keeps (allowed item) (fun _ => True) (act item) fun _ _ => True)
    (world : World) :
    Reaches (fun mid change => ∃ item ∈ taken act items world, allowed item mid change) world
      ((each items).exec world).2 := by
  induction items generalizing world with
  | nil =>
    rw [hnil]
    exact .refl
  | cons item rest ih =>
    have hitem := (h item List.mem_cons_self).reaches world trivial
    rw [hcons, taken]
    cases hexec : (act item).exec world with
    | mk outcome mid =>
      rw [hexec] at hitem
      have hfirst : ∀ others, Reaches (fun mid change => ∃ other ∈ item :: others,
          allowed other mid change) world mid := fun others =>
        hitem.mono fun _ _ hallowed => ⟨item, List.mem_cons_self, hallowed⟩
      cases outcome with
      | error fault =>
        rw [exec_bind_error hexec]
        exact hfirst []
      | ok value =>
        rw [exec_bind hexec, exec_bind_still fun _ _ => rfl]
        refine (hfirst _).trans ((ih (fun other ho => h other (List.mem_cons_of_mem _ ho)) mid).mono ?_)
        rintro last change ⟨other, ho, hallowed⟩
        exact ⟨other, List.mem_cons_of_mem _ ho, hallowed⟩

end Each

end Session

end StyleModules
