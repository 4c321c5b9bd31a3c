import ViewRouting.Text.Lowercase
import ViewRouting.Trace.Message

/-! The switchboard of the trace. A setting lists the channels to be heard; it is read at a refresh,
and a channel keeps what that refresh decided until the next one. The built-in channels and every
channel that was ever looked up are renewed together. -/

namespace ViewRouting.Trace

/-- A channel as it was handed out: its key, and whether it is heard. -/
structure Channel where
  key : String
  active : Bool
  deriving DecidableEq, Repr

inductive Topic where
  | router
  | live
  deriving DecidableEq, Repr

def Topic.key : Topic → String
  | router => "router"
  | live => "live"

def keyOf (name : String) : String :=
  Text.lower (Text.trim name)

/-- The keys that a setting turns on; a star stands for all. -/
def keysOn : Option String → List String
  | none => []
  | some s =>
    if ["", "0", "false"].contains s then []
    else if ["*", "1", "true"].contains s then ["*"]
    else (Text.split ',' s).map keyOf

def isOn (keys : List String) (name : String) : Bool :=
  keys.contains "*" || keys.contains (Text.lower name)

def Channel.make (keys : List String) (key : String) : Channel :=
  ⟨key, isOn keys key⟩

def Channel.silent : Channel :=
  ⟨"", false⟩

def Channel.send (c : Channel) (style : Style) (now : Instant) (point : String) (data : Value) :
    Except Fault (Option String) :=
  if c.active then (Message.text ⟨c.key, point, data⟩ style now).map some else .ok none

structure Switchboard where
  setting : Option String
  style : Style
  clock : Instant
  /-- Keys on since the last refresh. -/
  keys : List String
  router : Channel
  live : Channel
  /-- Channels that were looked up, the oldest first. -/
  others : List Channel

namespace Switchboard

/-- Reads the setting again and renews every channel. -/
def refresh (b : Switchboard) : Switchboard :=
  let keys := keysOn b.setting
  { b with
    keys := keys
    router := .make keys Topic.router.key
    live := .make keys Topic.live.key
    others := b.others.map fun c => .make keys c.key }

/-- The board after a refresh under `setting`, no channel looked up yet. -/
def fresh (setting : Option String) (style : Style) (clock : Instant) : Switchboard :=
  refresh ⟨setting, style, clock, [], .silent, .silent, []⟩

def withSetting (b : Switchboard) (setting : Option String) : Switchboard :=
  { b with setting := setting }

def configure (b : Switchboard) (format : Option Format) (timestamps : Option Bool) : Switchboard :=
  { b with
    style :=
      { format := format.getD b.style.format
        timestamps := timestamps.getD b.style.timestamps } }

def builtin (b : Switchboard) : Topic → Channel
  | .router => b.router
  | .live => b.live

/-- The channel of a name. A blank name has a silent channel; any other is made once and kept. -/
def lookup (b : Switchboard) (name : String) : Channel × Switchboard :=
  let key := keyOf name
  if key = "" then (.silent, b)
  else match b.others.find? (·.key = key) with
    | some c => (c, b)
    | none =>
      let c := .make b.keys key
      (c, { b with others := b.others ++ [c] })

/-- Whether a name is on; without a name, whether anything is. -/
def hears (b : Switchboard) (name : Option String) : Bool :=
  match name with
  | none | some "" => !b.keys.isEmpty
  | some name => isOn b.keys name

def send (b : Switchboard) (c : Channel) (point : String) (data : Value) :
    Except Fault (Option String) :=
  c.send b.style b.clock point data

end Switchboard

/-! Scripts for the switchboard: commands that change the setting and the style, hold channels in
named slots and send messages through held, built-in or named channels. -/

inductive Source where
  | slot (name : String)
  | builtin (topic : Topic)
  | named (name : String)
  deriving DecidableEq, Repr

inductive Command where
  | assign (setting : Option String)
  | refresh
  | configure (format : Option Format) (timestamps : Option Bool)
  | enabled (name : Option String)
  | hold (slot : String) (source : Source)
  | send (source : Source) (point : String) (data : Value)

structure Reply where
  result : Except Fault (Option Bool)
  output : List String

structure Desk where
  board : Switchboard
  slots : List (String × Channel) := []

namespace Desk

def channel (d : Desk) : Source → Channel × Desk
  | .slot name => ((d.slots.lookup name).getD .silent, d)
  | .builtin topic => (d.board.builtin topic, d)
  | .named name =>
    let found := d.board.lookup name
    (found.1, { d with board := found.2 })

def run (d : Desk) : Command → Reply × Desk
  | .assign setting => (⟨.ok none, []⟩, { d with board := d.board.withSetting setting })
  | .refresh => (⟨.ok none, []⟩, { d with board := d.board.refresh })
  | .configure format timestamps =>
    (⟨.ok none, []⟩, { d with board := d.board.configure format timestamps })
  | .enabled name => (⟨.ok (some (d.board.hears name)), []⟩, d)
  | .hold slot source =>
    let (c, d) := d.channel source
    (⟨.ok none, []⟩, { d with slots := (slot, c) :: d.slots })
  | .send source point data =>
    let (c, d) := d.channel source
    match d.board.send c point data with
    | .ok message => (⟨.ok none, message.toList⟩, d)
    | .error fault => (⟨.error fault, []⟩, d)

def runAll (d : Desk) : List Command → List Reply × Desk
  | [] => ([], d)
  | c :: cs =>
    let (reply, d) := d.run c
    let (replies, d) := d.runAll cs
    (reply :: replies, d)

end Desk

end ViewRouting.Trace
