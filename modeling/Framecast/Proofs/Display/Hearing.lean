import Framecast.Proofs.Display.Calls

/-!
# What a batch of control lines does

Control lines are heard up to the first that asks to quit; lines that are no commands are passed over. Each command that
is heard gives one event and does to the root what `Canvas.obey` says. `Display.pollInput_eq` puts this together for one
call for input.
-/

namespace Framecast

/-! ## Up to the first -/

section

variable {α β : Type} {p : α → Bool} {l : List α}

/-- The elements of a list up to the first with a property, that one included. -/
def throughFirst (p : α → Bool) : List α → List α
  | [] => []
  | a :: rest => if p a then [a] else a :: throughFirst p rest

theorem throughFirst_append_of_none (h : ∀ a ∈ l, p a = false) (m : List α) :
    throughFirst p (l ++ m) = l ++ throughFirst p m := by
  induction l with
  | nil => rfl
  | cons a l ih =>
      obtain ⟨ha, hl⟩ := List.forall_mem_cons.mp h
      simp only [List.cons_append, throughFirst, ha, Bool.false_eq_true, ↓reduceIte, ih hl]

theorem throughFirst_of_none (h : ∀ a ∈ l, p a = false) : throughFirst p l = l := by
  have happend := throughFirst_append_of_none h []
  rwa [List.append_nil, throughFirst, List.append_nil] at happend

theorem throughFirst_append_of_mem {a : α} (ha : a ∈ l) (hp : p a = true) (m : List α) :
    throughFirst p (l ++ m) = throughFirst p l := by
  induction l with
  | nil => cases ha
  | cons b l ih =>
      rw [List.cons_append, throughFirst, throughFirst]
      split
      · rfl
      · rename_i hb
        obtain rfl | hmem := List.mem_cons.mp ha
        · exact absurd hp hb
        · rw [ih hmem]

/-- What comes after a part that is cut off where it should be is cut off where it should be. -/
theorem throughFirst_append_congr {m m' : List α} (h : throughFirst p m = throughFirst p m') (l : List α) :
    throughFirst p (throughFirst p l ++ m) = throughFirst p (l ++ m') := by
  induction l with
  | nil => exact h
  | cons a l ih =>
      simp only [throughFirst, List.cons_append]
      split <;> simp_all [throughFirst]

theorem throughFirst_map (f : β → α) (l : List β) :
    throughFirst p (l.map f) = (throughFirst (fun b => p (f b)) l).map f := by
  induction l with
  | nil => rfl
  | cons b l ih =>
      simp only [List.map_cons, throughFirst, ih]
      split <;> rfl

end

/-! ## Commands -/

namespace Canvas

section

variable (allocator : Allocator)

theorem create_eq (width height : Nat) (format : PixelFormat) (antialias : Bool) :
    create allocator width height format antialias =
      if Allocatable allocator width height format then .ok (blank width height format antialias)
      else .error (.allocationFailed width height) := by
  rw [create, allocate]
  split <;> rfl

theorem resize_eq (c : Canvas) (width height : Nat) :
    c.resize allocator width height =
      if Allocatable allocator width height c.format then .ok (blank width height c.format c.antialias)
      else .error (.allocationFailed width height) := by
  rw [resize, allocate]
  split <;> rfl

/-- What a command does to the root: a fresh root of zeros if there is memory for it, and nothing otherwise. -/
def obey (c : Canvas) : ControlCommand → Canvas
  | .resize width height =>
    if Allocatable allocator width height c.format then blank width height c.format c.antialias else c
  | _ => c

end

def size (c : Canvas) : Nat × Nat := (c.width, c.height)

theorem size_of_sameLayout {c d : Canvas} (h : c.SameLayout d) : d.size = c.size := by
  rw [size, h.width_eq, h.height_eq, size]

end Canvas

namespace ControlCommand

/-- The event that reports a command to a program whose root has the given format. -/
def event (allocator : Allocator) (format : PixelFormat) : ControlCommand → HostEvent
  | .resize width height =>
    if Canvas.Allocatable allocator width height format then .resized width height else .resizeFailed width height
  | .quit => .quit
  | .press p => .pointerButton true HostEvent.primaryButton p
  | .release p => .pointerButton false HostEvent.primaryButton p
  | .move p => .pointerMoved p
  | .key k => .keyPressed k

/-- The commands of control lines, without the lines that are none. -/
def all (lines : List String) : List ControlCommand := lines.filterMap parse

def isQuit (command : ControlCommand) : Bool := command = .quit

/-- The commands of one batch that are heard. -/
def heard (lines : List String) : List ControlCommand := throughFirst isQuit (all lines)

end ControlCommand

def HostEvent.isQuit (event : HostEvent) : Bool := event = .quit

/-- The size that an event reports. -/
def HostEvent.newSize? : HostEvent → Option (Nat × Nat)
  | .resized width height => some (width, height)
  | _ => none

/-- The size that was reported last. -/
def lastSize? (events : List HostEvent) : Option (Nat × Nat) := (events.filterMap HostEvent.newSize?).getLast?

theorem ControlCommand.isQuit_event (allocator : Allocator) (format : PixelFormat) (command : ControlCommand) :
    (command.event allocator format).isQuit = command.isQuit := by
  cases command with
  | resize width height =>
      simp only [event]
      split <;> rfl
  | _ => rfl

theorem lastSize?_append (events events' : List HostEvent) :
    lastSize? (events ++ events') = (lastSize? events').or (lastSize? events) := by
  rw [lastSize?, List.filterMap_append, List.getLast?_append]
  rfl

theorem Canvas.format_obey (allocator : Allocator) (c : Canvas) (command : ControlCommand) :
    (c.obey allocator command).format = c.format := by
  cases command with
  | resize width height =>
      simp only [obey]
      split <;> rfl
  | _ => rfl

theorem Canvas.format_foldl_obey (allocator : Allocator) (c : Canvas) (commands : List ControlCommand) :
    (commands.foldl (obey allocator) c).format = c.format :=
  List.foldlRecOn (motive := fun d : Canvas => d.format = c.format) commands _ rfl fun d hd command _ =>
    (format_obey allocator d command).trans hd

/-- The sizes that are reported for commands lead to the size of the root. -/
theorem Canvas.size_foldl_obey (allocator : Allocator) (c : Canvas) (commands : List ControlCommand) :
    (commands.foldl (obey allocator) c).size =
      (lastSize? (commands.map (ControlCommand.event allocator c.format))).getD c.size := by
  induction commands generalizing c with
  | nil => rfl
  | cons command rest ih =>
      have hone : lastSize? [command.event allocator c.format] = none ∧ (c.obey allocator command).size = c.size ∨
          lastSize? [command.event allocator c.format] = some (c.obey allocator command).size := by
        cases command with
        | resize width height =>
            by_cases h : Allocatable allocator width height c.format
            · exact .inr (by simp only [ControlCommand.event, obey, if_pos h]; rfl)
            · exact .inl ⟨by simp only [ControlCommand.event, if_neg h]; rfl, by simp only [obey, if_neg h]⟩
        | _ => exact .inl ⟨rfl, rfl⟩
      have hcons : (command :: rest).map (ControlCommand.event allocator c.format) =
          [command.event allocator c.format] ++ rest.map (ControlCommand.event allocator c.format) := rfl
      rw [List.foldl_cons, ih, format_obey, hcons, lastSize?_append]
      rcases hone with ⟨hnone, hsize⟩ | hsome
      · rw [hnone, hsize, Option.or_none]
      · rw [hsome]
        cases lastSize? (rest.map (ControlCommand.event allocator c.format)) <;> rfl

namespace ControlCommand

theorem any_isQuit_iff {commands : List ControlCommand} : commands.any isQuit = true ↔ .quit ∈ commands := by
  simp [isQuit]

/-- What comes after a request to quit is not heard. -/
theorem heard_append (lines rest : List String) :
    heard (lines ++ rest) = if (all lines).any isQuit then heard lines else heard lines ++ heard rest := by
  have hall : all (lines ++ rest) = all lines ++ all rest := List.filterMap_append
  rw [heard, hall]
  split
  · rename_i hquit
    obtain ⟨command, hmem, hcommand⟩ := List.any_eq_true.mp hquit
    exact throughFirst_append_of_mem hmem hcommand _
  · rename_i hquit
    have hnone : ∀ command ∈ all lines, command.isQuit = false := by simpa using hquit
    rw [throughFirst_append_of_none hnone, heard, throughFirst_of_none hnone, heard]

theorem heard_singleton (line : String) : heard [line] = (parse line).toList := by
  cases hparse : parse line with
  | none => simp only [heard, all, List.filterMap_cons, hparse, List.filterMap_nil, throughFirst, Option.toList_none]
  | some command =>
      simp only [heard, all, List.filterMap_cons, hparse, List.filterMap_nil, throughFirst, Option.toList_some, ite_self]

end ControlCommand

/-! ## Batches -/

namespace Display

variable {d : Display}

theorem apply_eq (d : Display) (command : ControlCommand) :
    d.apply command = (command.event d.allocator d.screen.root.format,
      { d with screen := { d.screen with root := d.screen.root.obey d.allocator command } }) := by
  cases command with
  | resize width height =>
      by_cases h : Canvas.Allocatable d.allocator width height d.screen.root.format
      · simp only [apply, Screen.resizeRoot, Canvas.resize_eq, ControlCommand.event, Canvas.obey, if_pos h]
      · simp only [apply, Screen.resizeRoot, Canvas.resize_eq, ControlCommand.event, Canvas.obey, if_neg h]
  | _ => rfl

theorem applyLines_eq (d : Display) (lines : List String) :
    d.applyLines lines = ((ControlCommand.heard lines).map (ControlCommand.event d.allocator d.screen.root.format),
      { d with
        screen.root := (ControlCommand.heard lines).foldl (Canvas.obey d.allocator) d.screen.root }) := by
  induction lines generalizing d with
  | nil => rfl
  | cons line rest ih =>
      cases hparse : ControlCommand.parse line with
      | none =>
          have hheard : ControlCommand.heard (line :: rest) = ControlCommand.heard rest := by
            simp only [ControlCommand.heard, ControlCommand.all, List.filterMap_cons, hparse]
          simp only [applyLines, hparse, hheard]
          exact ih d
      | some command =>
          have hheard : ControlCommand.heard (line :: rest) =
              if command.isQuit then [command] else command :: ControlCommand.heard rest := by
            simp only [ControlCommand.heard, ControlCommand.all, List.filterMap_cons, hparse, throughFirst]
          have hquit := command.isQuit_event d.allocator d.screen.root.format
          simp only [applyLines, hparse, apply_eq]
          split
          · -- The event asks to quit, and so does the command.
            rename_i e heq
            obtain ⟨hevent, rfl⟩ := Prod.mk.inj heq
            rw [hevent] at hquit
            simp only [hheard, ← hquit, HostEvent.isQuit, decide_true, ↓reduceIte, List.map_cons, List.map_nil, hevent,
              List.foldl_cons, List.foldl_nil]
          · rename_i event e hne heq
            obtain ⟨rfl, rfl⟩ := Prod.mk.inj heq
            have hcommand : command.isQuit = false := by
              rw [← hquit]
              exact decide_eq_false hne
            rw [hheard, hcommand, ih]
            simp only [Bool.false_eq_true, ↓reduceIte, List.map_cons, List.foldl_cons, Canvas.format_obey]

/-- The report of the size of the root, if it is due. -/
def due (d : Display) : List HostEvent :=
  if d.sizeUnreported then [.resized d.screen.root.width d.screen.root.height] else []

theorem pollInput_eq (hlistening : d.listening = true) (lines : List String) :
    d.pollInput lines =
      (d.due ++ (ControlCommand.heard lines).map (ControlCommand.event d.allocator d.screen.root.format),
        { d with
          screen := { d.screen with root := (ControlCommand.heard lines).foldl (Canvas.obey d.allocator) d.screen.root }
          sizeUnreported := false }) := by
  obtain ⟨screen, allocator, scratch, images, courier, unreported, listening, window⟩ := d
  simp only at hlistening
  subst hlistening
  cases unreported <;> simp only [pollInput, reportSize, due, applyLines_eq, Bool.false_eq_true, ↓reduceIte]

/-- A display that does not listen reports its size at most. -/
theorem pollInput_of_not_listening (hdeaf : d.listening = false) (lines : List String) :
    d.pollInput lines = d.reportSize := by
  have hreport : d.reportSize.2.listening = false := by
    unfold reportSize
    split <;> exact hdeaf
  simp only [pollInput, hreport, Bool.false_eq_true, ↓reduceIte]

theorem format_pollInput (d : Display) (lines : List String) :
    (d.pollInput lines).2.screen.root.format = d.screen.root.format := by
  cases hlistening : d.listening with
  | true =>
      rw [pollInput_eq hlistening]
      exact Canvas.format_foldl_obey _ _ _
  | false =>
      rw [pollInput_of_not_listening hlistening, reportSize]
      split <;> rfl

theorem allocator_pollInput (d : Display) (lines : List String) : (d.pollInput lines).2.allocator = d.allocator := by
  cases hlistening : d.listening with
  | true => rw [pollInput_eq hlistening]
  | false =>
      rw [pollInput_of_not_listening hlistening, reportSize]
      split <;> rfl

/-- A further line of a batch, if it is heard, is applied to what the lines before it left behind. -/
theorem pollInput_concat (hlistening : d.listening = true) (lines : List String) (line : String) :
    d.pollInput (lines ++ [line]) =
      match if (ControlCommand.all lines).any ControlCommand.isQuit then none else ControlCommand.parse line with
      | none => d.pollInput lines
      | some command =>
        ((d.pollInput lines).1 ++ [((d.pollInput lines).2.apply command).1], ((d.pollInput lines).2.apply command).2) := by
  simp only [pollInput_eq hlistening, ControlCommand.heard_append, ControlCommand.heard_singleton, apply_eq,
    Canvas.format_foldl_obey]
  split
  · rfl
  · cases ControlCommand.parse line with
    | none => simp only [Option.toList_none, List.append_nil]
    | some command =>
        simp only [Option.toList_some, List.map_append, List.map_cons, List.map_nil, List.foldl_append, List.foldl_cons,
          List.foldl_nil, List.append_assoc]

end Display

end Framecast
