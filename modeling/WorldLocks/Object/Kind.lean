import WorldLocks.Text.Basic

/-!
# Kinds of objects

Every object is of exactly one kind.  A kind has a name for people, a word for fixtures and, but
for channels, a letter that starts the flag string of its objects.
-/

set_option autoImplicit false

namespace WorldLocks

inductive ObjectKind where
  | room
  | thing
  | exit
  | cosmos
  | channel
  | player
  deriving DecidableEq, Repr

namespace ObjectKind

def all : List ObjectKind := [room, thing, exit, cosmos, channel, player]

def letter? : ObjectKind → Option Char
  | room => some 'R'
  | thing => some 'T'
  | exit => some 'E'
  | cosmos => some 'U'
  | channel => none
  | player => some 'P'

def name : ObjectKind → Text
  | room => "Room".toList
  | thing => "Thing".toList
  | exit => "Exit".toList
  | cosmos => "Universe".toList
  | channel => "Channel".toList
  | player => "Player".toList

def word : ObjectKind → Text
  | room => "room".toList
  | thing => "thing".toList
  | exit => "exit".toList
  | cosmos => "universe".toList
  | channel => "channel".toList
  | player => "player".toList

def ofWord? (word : Text) : Option ObjectKind := all.find? (·.word = word)

end ObjectKind
end WorldLocks
