import Storyboard.Json.Reading
import Storyboard.Script.Action

/-!
# Actions as JSON

An action is an object whose field `do` holds the word for its verb.  Reading
never fails: what has no verb, an unknown verb, or fields that do not fit the
verb is kept as it came together with the reason.  Writing gives back what was
read.
-/

namespace Storyboard

namespace LineStyle

def name : LineStyle → String
  | dashed => "dashed"
  | solid => "solid"

/-- The style of a name; every unknown style is solid. -/
def ofName (name : String) : LineStyle := if name == "dashed" then dashed else solid

/-- A style, or why it is none. -/
def want (j : Json) : Except String LineStyle := j.wantWord.map ofName

def ofJson? (j : Json) : Option LineStyle := (want j).toOption

end LineStyle

namespace Action

open Json

/-- The reading of a group from the members of its field `actions`, if that is a list. -/
def group (r : Record) (members : Option (List (Action Float))) :
    Reading (Action Float) :=
  together <$> r.demand "actions" fun j =>
    match members with
    | some actions => .ok actions
    | none => .error (j.wrongKind "a sequence")

/-- The reading of the fields that a verb asks for. -/
def ofRecord (verb : Verb) (members : Option (List (Action Float))) (r : Record) :
    Reading (Action Float) :=
  match verb with
  | .reveal => (fun t => step (.reveal t)) <$> r.demand "target" wantText
  | .hide => (fun t => step (.hide t)) <$> r.demand "target" wantText
  | .fadeIn =>
    (fun t d => step (.fadeIn t d)) <$> r.demand "target" wantText <*>
      r.allow "duration" wantNumber
  | .fadeOut =>
    (fun t d => step (.fadeOut t d)) <$> r.demand "target" wantText <*>
      r.allow "duration" wantNumber
  | .highlight =>
    (fun t c => step (.highlight t c)) <$> r.demand "target" wantText <*>
      r.allow "color" wantText
  | .pulse =>
    (fun t c n => step (.pulse t c n)) <$> r.demand "target" wantText <*>
      r.allow "color" wantText <*> r.allow "times" wantNumber
  | .drawLine =>
    (fun id a b style c => step (.create id c (.line a b style))) <$>
      r.allow "id" wantText <*> r.demand "from" wantText <*> r.demand "to" wantText <*>
      r.allow "style" LineStyle.want <*> r.allow "color" wantText
  | .showPath =>
    (fun id a b c => step (.create id c (.path a b))) <$>
      r.allow "id" wantText <*> r.demand "from" wantText <*> r.demand "to" wantText <*>
      r.allow "color" wantText
  | .showPlane =>
    (fun id points c o => step (.create id c (.plane points o))) <$>
      r.allow "id" wantText <*> r.demand "points" wantTexts <*>
      r.allow "color" wantText <*> r.allow "opacity" wantNumber
  | .showTetrahedron =>
    (fun id vertices c o => step (.create id c (.tetrahedron vertices o))) <$>
      r.allow "id" wantText <*> r.demand "vertices" wantTexts <*>
      r.allow "color" wantText <*> r.allow "opacity" wantNumber
  | .animatePoint =>
    (fun t a b d => step (.animatePoint t a b d)) <$> r.demand "target" wantText <*>
      r.demand "from" wantNumber <*> r.demand "to" wantNumber <*>
      r.allow "duration" wantNumber
  | .fold =>
    (fun id a b d => step (.fold id a b d)) <$> r.demand "foldId" wantText <*>
      r.allow "fromAngle" wantNumber <*> r.allow "toAngle" wantNumber <*>
      r.allow "duration" wantNumber
  | .together => group r members
  | .wait => (fun d => step (.wait d)) <$> r.allowDefault "duration" 0 wantNumber

/-- An action kept as it came. -/
def unreadable (raw : Json) (reason : Misreading) : Action Float :=
  step (.unread ⟨raw, reason⟩)

/-- The action of an object, given the members of its field `actions` if that is a list. -/
def ofObject (fields : List (String × Json)) (members : Option (List (Action Float))) :
    Action Float :=
  let raw := Json.obj fields
  match (raw.field? "do").bind Json.text? with
  | none => unreadable raw .noVerb
  | some word =>
    match Verb.ofWord? word with
    | none => unreadable raw (.unknownVerb word)
    | some verb =>
      match ofRecord verb members fields with
      | .read action => action
      | .refused complaint => unreadable raw (.malformed verb complaint.message)

mutual

/-- Reads an action. -/
def ofJson : Json → Action Float
  | .obj fields => ofObject fields (members fields)
  | raw => unreadable raw .noVerb

/-- The actions of the field `actions`, if it is a list. -/
def members : List (String × Json) → Option (List (Action Float))
  | [] => none
  | (name, value) :: rest =>
    if name = "actions" then
      match value with
      | .arr items => some (ofItems items)
      | _ => none
    else members rest

/-- Reads the actions of a list. -/
def ofItems : List Json → List (Action Float)
  | [] => []
  | j :: rest => ofJson j :: ofItems rest

end

end Action

/-- Writes the fields of a shape. -/
def Shape.fields : Shape Float → List (String × Option Json)
  | .line a b style =>
    [("from", some (.str a)), ("to", some (.str b)),
      ("style", style.map fun s => .str s.name)]
  | .path a b => [("from", some (.str a)), ("to", some (.str b))]
  | .plane points opacity =>
    [("points", some (.ofTexts points)), ("opacity", opacity.map .ofFloat)]
  | .tetrahedron vertices opacity =>
    [("vertices", some (.ofTexts vertices)), ("opacity", opacity.map .ofFloat)]

/-- Writes the fields of a step that has a verb. -/
def Step.fields : Step Float → List (String × Option Json)
  | .reveal target | .hide target => [("target", some (.str target))]
  | .fadeIn target duration | .fadeOut target duration =>
    [("target", some (.str target)), ("duration", duration.map .ofFloat)]
  | .highlight target color => [("target", some (.str target)), ("color", color.map .str)]
  | .pulse target color times =>
    [("target", some (.str target)), ("color", color.map .str),
      ("times", times.map .ofFloat)]
  | .create id color shape =>
    [("id", id.map .str), ("color", color.map .str)] ++ shape.fields
  | .animatePoint target start finish duration =>
    [("target", some (.str target)), ("from", some (.ofFloat start)),
      ("to", some (.ofFloat finish)), ("duration", duration.map .ofFloat)]
  | .fold id start finish duration =>
    [("foldId", some (.str id)), ("fromAngle", start.map .ofFloat),
      ("toAngle", finish.map .ofFloat), ("duration", duration.map .ofFloat)]
  | .wait duration => [("duration", some (.ofFloat duration))]
  | .unread _ => []

/-- Writes a step; one that could not be read goes out as it came. -/
def Step.toJson (s : Step Float) : Json :=
  match s with
  | .unread u => u.raw
  | _ => .ofFields (("do", s.verb?.map fun v => .str v.word) :: s.fields)

namespace Action

mutual

def toJson : Action Float → Json
  | .step s => s.toJson
  | .together actions =>
    .obj [("do", .str Verb.together.word), ("actions", .arr (toItems actions))]

/-- Writes the actions of a list. -/
def toItems : List (Action Float) → List Json
  | [] => []
  | a :: rest => toJson a :: toItems rest

end

end Action

end Storyboard
