import QueryServer.Sql.Definition
/-!
The relations that every store has after it was prepared: users, their logins, and the files that
they sent.
-/

namespace QueryServer.Relations
open Sql

def textColumn (name : String) : Column :=
  Database.plainColumn name .text

def identity : Column :=
  Database.plainColumn "id" .integer

def users : Table where
  name := "users"
  shape :=
    { columns := [textColumn "username", textColumn "password", textColumn "registration_date"]
      primaryKey := some [0]
      keys := [[0]] }
  definition := "CREATE TABLE users (\n        username            TEXT PRIMARY KEY,\n" ++
    "        password            TEXT,\n        registration_date   TEXT\n    )"

def loginHistory : Table where
  name := "login_history"
  shape :=
    { columns := [identity, textColumn "username", textColumn "login_time",
        textColumn "logout_time"]
      numberColumn := some 0
      autoincrement := true
      primaryKey := some [0] }
  definition := "CREATE TABLE login_history (\n" ++
    "        id          INTEGER PRIMARY KEY AUTOINCREMENT,\n        username    TEXT,\n" ++
    "        login_time  TEXT,\n        logout_time TEXT\n    )"

def fileTracking : Table where
  name := "file_tracking"
  shape :=
    { columns := [identity, textColumn "username", textColumn "filename",
        textColumn "upload_time", textColumn "game_channel"]
      numberColumn := some 0
      autoincrement := true
      primaryKey := some [0] }
  definition := "CREATE TABLE file_tracking (\n" ++
    "        id              INTEGER PRIMARY KEY AUTOINCREMENT,\n" ++
    "        username        TEXT,\n        filename        TEXT,\n" ++
    "        upload_time     TEXT,\n        game_channel    TEXT\n    )"

def all : List Table := [users, loginHistory, fileTracking]

/-- Makes a relation unless there is a table of its name. -/
def ensure (db : Database) (t : Table) : Database :=
  if (db.table? t.name).isSome then db else db.create t

def ensureAll (db : Database) : Database :=
  all.foldl ensure db

def complete (db : Database) : Bool :=
  all.all fun t => (db.table? t.name).isSome

end QueryServer.Relations
