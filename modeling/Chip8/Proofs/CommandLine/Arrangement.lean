/-
  File:      Chip8/Proofs/CommandLine/Arrangement.lean
  Subject:   neither the order of a command line nor the spelling of its values matters

  * `Request`: a program, the texts of some options together with what they denote, and flags;
    `Request.items` are the things it says, `Request.settings` the settings it means;
  * `Says`: arguments that say given things one after the other;
  * `Draft.only`: as much of a draft as some items fill. A reader that has read these items of a
    request holds that much of the request's draft (`Reader.Holds`), and one item more adds its
    own part (`fill_only`, `switchOn_only`);
  * `parse_of_arranges`: so every arrangement of a request gives the settings it means.
-/
import Chip8.CommandLine
import Chip8.Proofs.Settings.Value

namespace Chip8.CommandLine

/-! ## 1. Kinds of arguments -/

section Tokens

variable {argument name text : String} {front rest : List Char}

theorem behindEquals_append (hfront : '=' ∉ front) (rest : List Char) :
    behindEquals (front ++ rest) = behindEquals rest := by
  induction front with
  | nil => rfl
  | cons c front ih =>
    obtain ⟨hc, hfront⟩ : '=' ≠ c ∧ '=' ∉ front := not_or.mp (mt List.mem_cons.mpr hfront)
    rw [List.cons_append, behindEquals, ih hfront]
    exact fun (e : c = '=') => hc e.symm

theorem takeWhile_append (hfront : '=' ∉ front) (rest : List Char) :
    (front ++ rest).takeWhile (· != '=') = front ++ rest.takeWhile (· != '=') := by
  refine List.takeWhile_append_of_pos fun c hc => ?_
  have hne : c ≠ '=' := fun e => hfront (e ▸ hc)
  simpa using hne

theorem ofArgument_dashes (h : argument.toList = '-' :: '-' :: rest) (hrest : rest ≠ []) :
    Token.ofArgument argument =
      .long (String.ofList (rest.takeWhile (· != '='))) (behindEquals rest) := by
  obtain ⟨c, rest, rfl⟩ := List.exists_cons_of_ne_nil hrest
  rw [Token.ofArgument, h]
  rfl

/-- **A name alone.** -/
theorem ofArgument_name (hne : name ≠ "") (hname : '=' ∉ name.toList) :
    Token.ofArgument ("--" ++ name) = .long name none := by
  have hdashes : ("--" ++ name).toList = '-' :: '-' :: name.toList := String.toList_append
  have hbehind : behindEquals name.toList = none := by
    simpa [behindEquals] using behindEquals_append hname []
  have hfront : name.toList.takeWhile (· != '=') = name.toList := by
    simpa using takeWhile_append hname []
  rw [ofArgument_dashes hdashes (by simpa using hne), hbehind, hfront, String.ofList_toList]

/-- **A name with a value.** -/
theorem ofArgument_joined (hname : '=' ∉ name.toList) (text : String) :
    Token.ofArgument ("--" ++ name ++ "=" ++ text) = .long name (some text) := by
  have hdashes : ("--" ++ name ++ "=" ++ text).toList =
      '-' :: '-' :: (name.toList ++ '=' :: text.toList) := by
    simp [String.toList_append]
  have hbehind : behindEquals (name.toList ++ '=' :: text.toList) = some text := by
    rw [behindEquals_append hname, behindEquals, String.ofList_toList]
  have hfront : (name.toList ++ '=' :: text.toList).takeWhile (· != '=') = name.toList := by
    rw [takeWhile_append hname]
    simp
  rw [ofArgument_dashes hdashes (by simp), hbehind, hfront, String.ofList_toList]

/-- **A text that begins with no dash.** -/
theorem ofArgument_plain (h : ∀ rest, text.toList ≠ '-' :: rest) :
    Token.ofArgument text = .plain text := by
  unfold Token.ofArgument
  split
  · rename_i hdash
    exact absurd hdash (h _)
  · rename_i hdash
    exact absurd hdash (h _)
  · rename_i hdash
    exact absurd hdash (h _)
  · rfl

end Tokens

/-! ## 2. Requests -/

/-- Something a command line says. -/
inductive Item where
  | value (slot : Slot) (text : String)
  | flag (flag : Flag)
  deriving DecidableEq

def Item.fills (slot : Slot) : Item → Bool
  | .value filled _ => filled = slot
  | .flag _ => false

/-- The name of the option that fills a slot; the program has none. -/
def Slot.name? : Slot → Option String
  | .rom => none
  | .clock => some "clock-hz"
  | .scale => some "scale"
  | .foreground => some "foreground"
  | .background => some "background"

/-- **Arguments that say these things, one after the other.** The value of an option stands behind
    its name, as an argument of its own or joined to it. -/
inductive Says : List Item → List String → Prop where
  | nothing : Says [] []
  | rom {items : List Item} {arguments : List String} (text : String) :
    Says items arguments → Says (.value .rom text :: items) (text :: arguments)
  | apart {items : List Item} {arguments : List String} {slot : Slot} {name : String}
    (text : String) : slot.name? = some name → Says items arguments →
    Says (.value slot text :: items) (("--" ++ name) :: text :: arguments)
  | joined {items : List Item} {arguments : List String} {slot : Slot} {name : String}
    (text : String) : slot.name? = some name → Says items arguments →
    Says (.value slot text :: items) (("--" ++ name ++ "=" ++ text) :: arguments)
  | flag {items : List Item} {arguments : List String} (flag : Flag) :
    Says items arguments → Says (.flag flag :: items) (flag.shown :: arguments)

/-- A text together with what it denotes. -/
structure Given {α : Type} (read : String → Except Settings.ValueRefusal α) where
  text : String
  value : α
  reads : read text = .ok value

/-- **A program, values for some of the options, and flags.** -/
structure Request where
  rom : String
  clock : Option (Given Settings.readClock)
  scale : Option (Given Settings.readScale)
  foreground : Option (Given Settings.readColour)
  background : Option (Given Settings.readColour)
  mute : Bool
  paused : Bool
  named : rom ≠ ""
  undashed : ∀ rest, rom.toList ≠ '-' :: rest

namespace Request

/-- The text given for a slot. -/
def text? (q : Request) : Slot → Option String
  | .rom => some q.rom
  | .clock => q.clock.map (·.text)
  | .scale => q.scale.map (·.text)
  | .foreground => q.foreground.map (·.text)
  | .background => q.background.map (·.text)

def wants (q : Request) : Flag → Bool
  | .mute => q.mute
  | .paused => q.paused

/-- The things a request says. -/
def items (q : Request) : List Item :=
  [Slot.rom, .clock, .scale, .foreground, .background].filterMap
      (fun slot => (q.text? slot).map (.value slot)) ++
    ([Flag.mute, .paused].filter q.wants).map .flag

/-- **Arguments that say what a request says**, in any order. -/
def Arranges (q : Request) (arguments : List String) : Prop :=
  ∃ items, List.Perm items q.items ∧ Says items arguments

/-- **The settings a request means**: its values, each in its own place, and the standard where it
    gives none. -/
def settings (q : Request) : Settings where
  rom := q.rom
  clock := (q.clock.map (·.value)).getD 1760000
  scale := (q.scale.map (·.value)).getD 16
  palette :=
    ⟨(q.foreground.map (·.value)).getD 0xFFFFFF, (q.background.map (·.value)).getD 0x000000⟩
  mute := q.mute
  startPaused := q.paused

/-- The draft that holds everything a request says. -/
def draft (q : Request) : Draft where
  rom := some q.rom
  clock := q.clock.map (·.value)
  scale := q.scale.map (·.value)
  foreground := q.foreground.map (·.value)
  background := q.background.map (·.value)
  mute := q.mute
  paused := q.paused

variable {q : Request} {slot : Slot} {flag : Flag} {text : String}

theorem settings?_draft (q : Request) : q.draft.settings? = some q.settings := rfl

theorem value_mem_items : .value slot text ∈ q.items ↔ q.text? slot = some text := by
  cases slot <;> simp [items]

theorem flag_mem_items : .flag flag ∈ q.items ↔ q.wants flag = true := by
  cases flag <;> simp [items]

theorem nodup_items (q : Request) : q.items.Nodup := by
  refine List.nodup_append.mpr ⟨?_, ?_, fun a ha b hb => ?_⟩
  · refine List.Pairwise.filterMap _ (fun slot other hne a ha b hb => ?_)
      (show [Slot.rom, .clock, .scale, .foreground, .background].Nodup by decide)
    obtain ⟨text, -, rfl⟩ := Option.map_eq_some_iff.mp ha
    obtain ⟨_, -, rfl⟩ := Option.map_eq_some_iff.mp hb
    exact fun e => hne (Item.value.inj e).1
  · have hflags : ([Flag.mute, .paused].filter q.wants).Nodup :=
      List.Pairwise.filter _ (by decide)
    exact List.Pairwise.map _ (fun _ _ hne e => hne (Item.flag.inj e)) hflags
  · obtain ⟨_, _, ha⟩ := List.mem_filterMap.mp ha
    obtain ⟨_, -, rfl⟩ := Option.map_eq_some_iff.mp ha
    obtain ⟨_, -, rfl⟩ := List.mem_map.mp hb
    exact nofun

/-- No text that a request gives begins with a dash. -/
theorem undashed_of_text? (h : q.text? slot = some text) (rest : List Char) :
    text.toList ≠ '-' :: rest := by
  cases slot with
  | rom =>
    cases h
    exact q.undashed rest
  | clock =>
    obtain ⟨g, -, rfl⟩ := Option.map_eq_some_iff.mp h
    exact Settings.not_dash_of_readClock g.reads rest
  | scale =>
    obtain ⟨g, -, rfl⟩ := Option.map_eq_some_iff.mp h
    exact Settings.not_dash_of_readScale g.reads rest
  | foreground | background =>
    obtain ⟨g, -, rfl⟩ := Option.map_eq_some_iff.mp h
    exact Settings.not_dash_of_readColour g.reads rest

end Request

/-! ## 3. Drafts -/

/-- **As much of a draft as these items fill.** -/
def Draft.only (d : Draft) (items : List Item) : Draft where
  rom := if items.any (Item.fills .rom) then d.rom else none
  clock := if items.any (Item.fills .clock) then d.clock else none
  scale := if items.any (Item.fills .scale) then d.scale else none
  foreground := if items.any (Item.fills .foreground) then d.foreground else none
  background := if items.any (Item.fills .background) then d.background else none
  mute := items.contains (.flag .mute) && d.mute
  paused := items.contains (.flag .paused) && d.paused

section Only

variable {q : Request} {d : Draft} {said : List Item} {slot : Slot} {flag : Flag} {text : String}

theorem only_nil (d : Draft) : d.only [] = .blank := rfl

theorem only_some {α : Type} {filled : Bool} {given : Option α}
    (h : given.isSome = true → filled = true) : (if filled then given else none) = given := by
  cases given with
  | none => exact ite_self none
  | some a => rw [h rfl, if_pos rfl]

/-- **All of a draft**, if the items leave out nothing that it holds. -/
theorem only_eq (hslots : ∀ slot, d.has slot = true → said.any (Item.fills slot) = true)
    (hflags : ∀ flag, d.isOn flag = true → said.contains (.flag flag) = true) :
    d.only said = d := by
  have hmute : (said.contains (.flag .mute) && d.mute) = d.mute := by
    cases h : d.mute with
    | false => exact Bool.and_false _
    | true => rw [hflags .mute h, Bool.and_true]
  have hpaused : (said.contains (.flag .paused) && d.paused) = d.paused := by
    cases h : d.paused with
    | false => exact Bool.and_false _
    | true => rw [hflags .paused h, Bool.and_true]
  rw [Draft.only, only_some (hslots .rom), only_some (hslots .clock), only_some (hslots .scale),
    only_some (hslots .foreground), only_some (hslots .background), hmute, hpaused]

theorem has_only (slot : Slot) :
    (d.only said).has slot = (said.any (Item.fills slot) && d.has slot) := by
  cases slot <;> simp only [Draft.only, Draft.has] <;> split <;> simp_all

theorem isOn_only (flag : Flag) :
    (d.only said).isOn flag = (said.contains (.flag flag) && d.isOn flag) := by
  cases flag <;> rfl

/-- **A value more** fills its own slot and no other. -/
theorem fill_only (h : q.text? slot = some text) (said : List Item) :
    (q.draft.only said).fill text slot = .ok (q.draft.only (said ++ [.value slot text])) := by
  cases slot with
  | rom =>
    cases h
    simp [Draft.only, Draft.fill, Item.fills, Request.draft]
  | clock | scale | foreground | background =>
    obtain ⟨g, hg, rfl⟩ := Option.map_eq_some_iff.mp h
    simp [Draft.only, Draft.fill, Item.fills, Request.draft, hg, g.reads, Except.map]

/-- **A flag more** is switched on and nothing else. -/
theorem switchOn_only (h : q.wants flag = true) (said : List Item) :
    (q.draft.only said).switchOn flag = q.draft.only (said ++ [.flag flag]) := by
  cases flag with
  | mute =>
    have hmute : q.mute = true := h
    simp [Draft.only, Draft.switchOn, Item.fills, Request.draft, hmute]
  | paused =>
    have hpaused : q.paused = true := h
    simp [Draft.only, Draft.switchOn, Item.fills, Request.draft, hpaused]

end Only

/-! ## 4. Readers -/

namespace Reader

variable {r : Reader} {d filled : Draft} {slot : Slot} {flag : Flag} {argument name text : String}

/-- **The reader waits for no value, and with what it has read the draft is this one.** -/
structure Holds (r : Reader) (d : Draft) : Prop where
  settles : r.settle = .ok ⟨d, none, r.romSeen, false⟩
  romSeen : r.romSeen = d.has .rom
  optionsOn : r.optionsEnded = false

theorem holds_start : start.Holds .blank := ⟨rfl, rfl, rfl⟩

theorem give_of_fill (hnew : d.has slot = false) (hnamed : slot = .rom → text ≠ "")
    (hfill : d.fill text slot = .ok filled) : give d slot text = .ok filled := by
  have hempty : ¬(slot = .rom ∧ text = "") := fun ⟨hrom, h⟩ => hnamed hrom h
  rw [give, hnew, if_neg Bool.false_ne_true, if_neg hempty, hfill]

/-- A reader with a pending value holds what the value fills in. -/
theorem holds_pending {seen : Bool} (hgive : give d slot text = .ok filled)
    (hseen : seen = filled.has .rom) :
    Holds ⟨d, some (slot, some text), seen, false⟩ filled := by
  refine ⟨?_, hseen, rfl⟩
  show (do
    let given ← give d slot text
    return ⟨given, none, seen, false⟩ : Except Stop Reader) = _
  rw [hgive]
  rfl

theorem Holds.read_eq (h : r.Holds d) (argument : String) :
    r.read argument = r.readToken (.ofArgument argument) := by
  rw [read, h.optionsOn]
  rfl

theorem readToken_name {meaning : Meaning} (h : meaning? name = some meaning) :
    r.readToken (.long name none) = r.readName meaning := by
  simp only [readToken, h]

theorem readToken_nameWithValue {meaning : Meaning} (h : meaning? name = some meaning) :
    r.readToken (.long name (some text)) = r.readNameWithValue text meaning := by
  simp only [readToken, h]

/-- A text that begins with no dash is the program, since no slot waits for a value. -/
theorem Holds.readPlain (h : r.Holds d) (text : String) :
    r.readPlain text = r.readRom text := by
  unfold Reader.readPlain
  split
  · rename_i hpending
    have hsettles := h.settles
    rw [settle, hpending] at hsettles
    cases hsettles
  · rfl

/-- **A program.** -/
theorem Holds.rom (h : r.Holds d) (hnew : d.has .rom = false)
    (hplain : Token.ofArgument text = .plain text) (hgive : give d .rom text = .ok filled)
    (hrom : filled.has .rom = true) : ∃ next, r.read text = .ok next ∧ next.Holds filled := by
  have hseen : r.romSeen = false := h.romSeen.trans hnew
  refine ⟨⟨d, some (.rom, some text), true, false⟩, ?_, holds_pending hgive hrom.symm⟩
  rw [h.read_eq, hplain, readToken, h.readPlain, readRom, hseen, h.settles]
  rfl

/-- **A name and its value behind it.** -/
theorem Holds.apart (h : r.Holds d) (hmeaning : meaning? name = some (.slot slot))
    (hname : Token.ofArgument argument = .long name none)
    (hplain : Token.ofArgument text = .plain text) (hgive : give d slot text = .ok filled)
    (hrom : filled.has .rom = d.has .rom) :
    ∃ middle last, r.read argument = .ok middle ∧ middle.read text = .ok last ∧
      last.Holds filled := by
  refine ⟨⟨d, some (slot, none), r.romSeen, false⟩, ⟨d, some (slot, some text), r.romSeen, false⟩,
    ?_, ?_, holds_pending hgive (h.romSeen.trans hrom.symm)⟩
  · rw [h.read_eq, hname, readToken_name hmeaning, readName, h.settles]
    rfl
  · rw [read, if_neg Bool.false_ne_true, hplain]
    rfl

/-- **A name and its value in one argument.** -/
theorem Holds.joined (h : r.Holds d) (hmeaning : meaning? name = some (.slot slot))
    (hname : Token.ofArgument argument = .long name (some text))
    (hgive : give d slot text = .ok filled) (hrom : filled.has .rom = d.has .rom) :
    ∃ next, r.read argument = .ok next ∧ next.Holds filled := by
  refine ⟨⟨filled, none, r.romSeen, false⟩, ?_, ⟨rfl, h.romSeen.trans hrom.symm, rfl⟩⟩
  rw [h.read_eq, hname, readToken_nameWithValue hmeaning, readNameWithValue, h.settles]
  show (do
    let given ← give d slot text
    return ⟨given, none, r.romSeen, false⟩ : Except Stop Reader) = _
  rw [hgive]
  rfl

/-- **A flag.** -/
theorem Holds.switchOn (h : r.Holds d) (hoff : d.isOn flag = false) :
    ∃ next, r.read flag.shown = .ok next ∧ next.Holds (d.switchOn flag) := by
  have hread : r.read flag.shown = r.readName (.flag flag) := by
    rw [h.read_eq]
    cases flag <;> rfl
  have hrom : (d.switchOn flag).has .rom = d.has .rom := by
    cases flag <;> rfl
  refine ⟨⟨d.switchOn flag, none, r.romSeen, false⟩, ?_,
    ⟨rfl, h.romSeen.trans hrom.symm, rfl⟩⟩
  rw [hread, readName, h.settles]
  show (if d.isOn flag then _ else _) = _
  rw [hoff]
  rfl

end Reader

/-! ## 5. Arrangements -/

theorem fills_iff {slot : Slot} {item : Item} :
    item.fills slot = true ↔ ∃ text, item = .value slot text := by
  cases item with
  | value filled text => simp [Item.fills]
  | flag flag => simp [Item.fills]

theorem meaning?_of_name? {slot : Slot} {name : String} (h : slot.name? = some name) :
    meaning? name = some (.slot slot) := by
  cases slot <;> cases h <;> rfl

theorem word_of_name? {slot : Slot} {name : String} (h : slot.name? = some name) :
    name ≠ "" ∧ '=' ∉ name.toList := by
  cases slot <;> cases h <;> decide

namespace Request

variable {q : Request} {r : Reader} {slot : Slot} {flag : Flag} {name text : String}
  {said rest items : List Item} {arguments : List String}

theorem not_said {item : Item} (hperm : List.Perm (said ++ item :: rest) q.items) :
    item ∉ said := by
  have hnodup := List.nodup_append.mp (hperm.nodup_iff.mpr q.nodup_items)
  exact fun hsaid => hnodup.2.2 item hsaid item List.mem_cons_self rfl

/-- A value that comes is the one of its slot, and nothing has filled the slot yet. -/
theorem value_comes (hperm : List.Perm (said ++ .value slot text :: rest) q.items) :
    q.text? slot = some text ∧ (q.draft.only said).has slot = false := by
  have htext : q.text? slot = some text :=
    value_mem_items.mp (hperm.mem_iff.mp (List.mem_append_right _ List.mem_cons_self))
  refine ⟨htext, ?_⟩
  -- another value for the slot would be the same item, which comes only once
  have hnone : said.any (Item.fills slot) = false := by
    refine List.any_eq_false.mpr fun item hitem hfills => ?_
    obtain ⟨other, rfl⟩ := fills_iff.mp hfills
    have hother : q.text? slot = some other :=
      value_mem_items.mp (hperm.mem_iff.mp (List.mem_append_left _ hitem))
    obtain rfl : text = other := Option.some.inj (htext.symm.trans hother)
    exact not_said hperm hitem
  rw [has_only, hnone, Bool.false_and]

/-- A flag that comes is wanted, and not switched on yet. -/
theorem flag_comes (hperm : List.Perm (said ++ .flag flag :: rest) q.items) :
    q.wants flag = true ∧ (q.draft.only said).isOn flag = false := by
  refine ⟨flag_mem_items.mp (hperm.mem_iff.mp (List.mem_append_right _ List.mem_cons_self)), ?_⟩
  have hnone : said.contains (.flag flag) = false := by
    simpa using not_said hperm
  rw [isOn_only, hnone, Bool.false_and]

/-- A value that comes is taken. -/
theorem give_only (hperm : List.Perm (said ++ .value slot text :: rest) q.items) :
    Reader.give (q.draft.only said) slot text =
      .ok (q.draft.only (said ++ [.value slot text])) := by
  obtain ⟨htext, hnew⟩ := value_comes hperm
  refine Reader.give_of_fill hnew (fun hrom => ?_) (fill_only htext said)
  subst hrom
  exact Option.some.inj htext ▸ q.named

/-- Whether a program is there changes with the program alone. -/
theorem has_rom_only (hslot : slot ≠ .rom) (text : String) :
    (q.draft.only (said ++ [.value slot text])).has .rom = (q.draft.only said).has .rom := by
  rw [has_only, has_only, List.any_append]
  simp [Item.fills, hslot]

theorem ne_rom_of_name? (h : slot.name? = some name) : slot ≠ .rom := by
  rintro rfl
  cases h

theorem foldlM_cons_of_read {argument : String} {next : Reader} (h : r.read argument = .ok next)
    (arguments : List String) :
    (argument :: arguments).foldlM Reader.read r = arguments.foldlM Reader.read next := by
  rw [List.foldlM_cons, h]
  rfl

/-- **All items that come are read**, each adding its own part of the draft. -/
theorem holds_of_said (hsaid : Says items arguments)
    (hperm : List.Perm (said ++ items) q.items) (hr : r.Holds (q.draft.only said)) :
    ∃ last, arguments.foldlM Reader.read r = .ok last ∧
      last.Holds (q.draft.only (said ++ items)) := by
  -- what has been said grows at its end, and stays together with what comes a rearrangement of
  -- the request
  induction hsaid generalizing r said with
  | nothing => exact ⟨r, rfl, (List.append_nil said).symm ▸ hr⟩
  | rom text _ ih =>
    obtain ⟨htext, hnew⟩ := value_comes hperm
    have hplain := ofArgument_plain (undashed_of_text? htext)
    have hrom : (q.draft.only (said ++ [.value .rom text])).has .rom = true := by
      rw [has_only, List.any_append]
      simp [Item.fills, Request.draft, Draft.has]
    obtain ⟨next, hread, hnext⟩ := hr.rom hnew hplain (give_only hperm) hrom
    rw [List.append_cons] at hperm ⊢
    rw [foldlM_cons_of_read hread]
    exact ih hperm hnext
  | apart text hname _ ih =>
    obtain ⟨hne, hword⟩ := word_of_name? hname
    have hplain := ofArgument_plain (undashed_of_text? (value_comes hperm).1)
    obtain ⟨middle, next, hfirst, hsecond, hnext⟩ :=
      hr.apart (meaning?_of_name? hname) (ofArgument_name hne hword) hplain (give_only hperm)
        (has_rom_only (ne_rom_of_name? hname) text)
    rw [List.append_cons] at hperm ⊢
    rw [foldlM_cons_of_read hfirst, foldlM_cons_of_read hsecond]
    exact ih hperm hnext
  | joined text hname _ ih =>
    obtain ⟨-, hword⟩ := word_of_name? hname
    obtain ⟨next, hread, hnext⟩ :=
      hr.joined (meaning?_of_name? hname) (ofArgument_joined hword text) (give_only hperm)
        (has_rom_only (ne_rom_of_name? hname) text)
    rw [List.append_cons] at hperm ⊢
    rw [foldlM_cons_of_read hread]
    exact ih hperm hnext
  | flag flag _ ih =>
    obtain ⟨hwants, hoff⟩ := flag_comes hperm
    obtain ⟨next, hread, hnext⟩ := hr.switchOn hoff
    rw [switchOn_only hwants said] at hnext
    rw [List.append_cons] at hperm ⊢
    rw [foldlM_cons_of_read hread]
    exact ih hperm hnext

/-- What the items of a request fill is all of its draft. -/
theorem only_items (hperm : List.Perm items q.items) : q.draft.only items = q.draft := by
  refine only_eq (fun slot hslot => ?_) fun flag hflag => ?_
  · have hgiven : (q.text? slot).isSome = q.draft.has slot := by
      cases slot <;> simp [text?, draft, Draft.has]
    obtain ⟨text, htext⟩ := Option.isSome_iff_exists.mp (hgiven.trans hslot)
    refine List.any_eq_true.mpr ⟨.value slot text, ?_, fills_iff.mpr ⟨text, rfl⟩⟩
    exact hperm.mem_iff.mpr (value_mem_items.mpr htext)
  · have hwants : q.wants flag = true := by
      cases flag <;> exact hflag
    simpa using hperm.mem_iff.mpr (flag_mem_items.mpr hwants)

end Request

/-- **Every arrangement of a request gives the settings it means.** -/
theorem parse_of_arranges (q : Request) {arguments : List String} (h : q.Arranges arguments) :
    parse arguments = .ok q.settings := by
  obtain ⟨items, hperm, hsaid⟩ := h
  have hall : List.Perm ([] ++ items) q.items := hperm
  have hstart : Reader.start.Holds (q.draft.only []) := only_nil q.draft ▸ Reader.holds_start
  obtain ⟨last, hlast, hholds⟩ := Request.holds_of_said hsaid hall hstart
  rw [List.nil_append, Request.only_items hperm] at hholds
  simp only [parse, hlast, bind, Except.bind, hholds.settles, Request.settings?_draft]

/-- A program with a clock, a scale and a pause. -/
def pausedPong : Request where
  rom := "pong.ch8"
  clock := some ⟨"500", 500, by cbv⟩
  scale := some ⟨"8", 8, by cbv⟩
  foreground := none
  background := none
  mute := false
  paused := true
  named := by decide
  undashed := by
    intro rest h
    cases h

theorem parse_pausedPong :
    pausedPong.Arranges ["--scale=8", "--paused", "pong.ch8", "--clock-hz", "500"] ∧
    parse ["--scale=8", "--paused", "pong.ch8", "--clock-hz", "500"] =
      .ok ⟨"pong.ch8", 500, 8, ⟨0xFFFFFF, 0⟩, false, true⟩ := by
  have hperm : List.Perm
      [.value .scale "8", .flag .paused, .value .rom "pong.ch8", .value .clock "500"]
      pausedPong.items := by
    decide +kernel
  have hsaid : Says
      [.value .scale "8", .flag .paused, .value .rom "pong.ch8", .value .clock "500"]
      ["--scale=8", "--paused", "pong.ch8", "--clock-hz", "500"] :=
    .joined "8" (show Slot.scale.name? = some "scale" from rfl)
      (.flag .paused (.rom "pong.ch8"
        (.apart "500" (show Slot.clock.name? = some "clock-hz" from rfl) .nothing)))
  have harranges : pausedPong.Arranges
      ["--scale=8", "--paused", "pong.ch8", "--clock-hz", "500"] := ⟨_, hperm, hsaid⟩
  exact ⟨harranges, parse_of_arranges pausedPong harranges⟩

end Chip8.CommandLine
