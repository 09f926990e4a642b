import Orm.Schema.Model

/-
Sample models: people and their notes, a small library, a blog, and a few tables that are odd on
purpose. They name relations of every kind, keys that are not numbers, models without a key, columns
that have to be quoted and relations that point at fields which do not exist.
-/

namespace Orm

inductive Sample where
  | profile
  | user
  | todo
  | tag
  | category
  | note
  | reminder
  | author
  | bio
  | book
  | genre
  | bookGenre
  | node
  | post
  | kitchen
  | country
  | city
  | passport
  | visa
  | message
  | weird
  | tick
  | logLine
  | logUse
  | broken
  | gauge
  deriving DecidableEq, Repr

namespace Sample

def all : List Sample :=
  [.profile, .user, .todo, .tag, .category, .note, .reminder, .author, .bio, .book, .genre,
   .bookGenre, .node, .post, .kitchen, .country, .city, .passport, .visa, .message, .weird,
   .tick, .logLine, .logUse, .broken, .gauge]

/-! ## Fields -/

/-- The numbered key that most samples have. -/
def key : FieldDef Sample := (FieldDef.new "id" .bigAuto).asPrimaryKey

def scalar (name : String) (type : FieldType) : FieldDef Sample := .new name type

def refersTo (name column : String) (target : Sample) : FieldDef Sample :=
  ((FieldDef.new name .foreignKey).withColumn column).withRelation { kind := .manyToOne, target }

def refersToOne (name column : String) (target : Sample) : FieldDef Sample :=
  ((FieldDef.new name .oneToOne).withColumn column).withRelation { kind := .oneToOne, target }

/-- The rows of the target whose field refers here. -/
def collects (name : String) (target : Sample) (related : String) : FieldDef Sample :=
  (FieldDef.new name .reverseForeignKey).withRelation
    { kind := .oneToMany, target, relatedField := some related }

/-- The one row of the target whose field refers here. -/
def behind (name : String) (target : Sample) (related : String) : FieldDef Sample :=
  (FieldDef.new name .oneToOne).withRelation
    { kind := .oneToOne, target, relatedField := some related }

def links (name : String) (target : Sample) : FieldDef Sample :=
  (FieldDef.new name .manyToMany).withRelation { kind := .manyToMany, target }

def linksThrough (name : String) (target model : Sample) (sourceField targetField : String) :
    FieldDef Sample :=
  (FieldDef.new name .manyToMany).withRelation
    { kind := .manyToMany, target, through := some { model, sourceField, targetField } }

/-! ## Models -/

def table (typeName appLabel table : String) (fields : List (FieldDef Sample)) : Model Sample :=
  { typeName, appLabel, modelName := Text.lowerAscii typeName, table, fields }

def schema : Schema Sample
  | .profile =>
    table "Profile" "app" "profiles"
      [key,
       scalar "name" .text,
       (scalar "email" .text).asUnique]
  | .user =>
    table "User" "app" "users"
      [key,
       scalar "name" .text,
       (refersTo "profile" "profile_id" .profile).asNullable,
       collects "todos" .todo "user"]
  | .todo =>
    { table "Todo" "test" "todos"
      [key,
       scalar "title" .text,
       scalar "done" .boolean,
       (refersTo "user" "user_id" .user).asNullable,
       links "tags" .tag] with
      uniqueTogether := [["title", "user"]]
      annotated := true }
  | .tag =>
    { table "Tag" "app" "tags"
      [key,
       scalar "label" .text] with
      ordering := ["label"] }
  | .category =>
    table "Category" "app" "categories"
      [key,
       scalar "name" .text,
       (refersTo "parent" "parent_id" .category).asNullable]
  | .note =>
    table "Note" "app" "notes"
      [key,
       scalar "body" .text,
       (refersTo "user" "user_id" .user).asNullable]
  | .reminder =>
    table "Reminder" "app" "reminders"
      [key,
       scalar "title" .text,
       (refersTo "user" "user_id" .user).asNullable,
       (refersTo "note" "note_id" .note).asNullable]
  | .author =>
    table "Author" "app" "authors"
      [key,
       scalar "name" .text,
       (refersToOne "bio" "bio_id" .bio).asNullable.onDelete .setNull,
       collects "books" .book "author"]
  | .bio =>
    table "Bio" "app" "bios"
      [key,
       scalar "text" .text,
       behind "author" .author "bio"]
  | .book =>
    { table "Book" "app" "books"
      [key,
       scalar "title" .text,
       ((refersTo "author" "author_id" .author).asNullable.onDelete .cascade).onUpdate .restrict,
       linksThrough "genres" .genre .bookGenre "book" "genre"] with
      uniqueTogether := [["title", "author"]]
      annotated := true }
  | .genre =>
    table "Genre" "app" "genres"
      [key,
       scalar "name" .text]
  | .bookGenre =>
    table "BookGenre" "app" "book_genres"
      [key,
       refersTo "book" "book_ref" .book,
       refersTo "genre" "genre_ref" .genre]
  | .node =>
    table "Node" "app" "nodes"
      [key,
       (refersTo "parent" "parent_id" .node).asNullable,
       links "links" .node]
  | .post =>
    { table "Post" "blog" "blog_post"
      [key,
       (scalar "title" .char).asUnique.withMaxLength 200,
       (scalar "subtitle" .text).asNullable.storedIn .string true,
       scalar "body" .text,
       scalar "published" .boolean,
       scalar "rating" .float,
       scalar "views" .integer,
       (scalar "created_at" .dateTime).withColumn "created",
       scalar "token" .uuid] with
      ordering := ["-id", "title"]
      annotated := true }
  | .kitchen =>
    table "Kitchen" "app" "app_kitchen"
      [(scalar "id" .auto).asPrimaryKey,
       scalar "small" .smallInteger,
       scalar "medium" .integer,
       scalar "big" .bigInteger,
       (scalar "unsigned" .integer).storedIn .nat32 false,
       (scalar "single" .float).storedIn .float32 false,
       scalar "double" .float,
       scalar "flag" .boolean,
       (scalar "code" .char).withMaxLength 10,
       scalar "text" .text,
       scalar "day" .date,
       scalar "at" .dateTime,
       scalar "at_utc" .dateTimeTz,
       scalar "clock" .time,
       scalar "span" .duration,
       scalar "uid" .uuid,
       scalar "doc" .json,
       scalar "blob" .binary,
       (scalar "opt_int" .bigInteger).asNullable.storedIn .int64 true,
       (scalar "opt_text" .text).asNullable.storedIn .string true,
       (scalar "opt_flag" .boolean).asNullable.storedIn .bool true,
       (scalar "opt_day" .date).asNullable.storedIn .date true,
       (scalar "opt_blob" .binary).asNullable.storedIn .bytes true]
  | .country =>
    { table "Country" "geo" "countries"
      [(scalar "code" .text).asPrimaryKey,
       (scalar "name" .text).asUnique,
       (scalar "dial" .integer).asUnique,
       collects "cities" .city "country"] with
      ordering := ["-name"] }
  | .city =>
    { table "City" "geo" "cities"
      [(scalar "uid" .uuid).asPrimaryKey,
       scalar "name" .text,
       scalar "zip" .integer,
       (refersTo "country" "country_code" .country).onDelete .restrict,
       (refersTo "mayor" "mayor_id" .user).asNullable.onDelete .setDefault] with
      uniqueTogether := [["name", "zip"], ["zip", "country", "mayor"]]
      ordering := ["country.name", "-name"]
      annotated := true }
  | .passport =>
    table "Passport" "app" "passports"
      [(refersToOne "person" "person_id" .user).asPrimaryKey,
       scalar "number" .text,
       collects "visas" .visa "passport"]
  | .visa =>
    { table "Visa" "app" "visas"
      [key,
       refersTo "passport" "passport_id" .passport,
       refersTo "country" "country_id" .country] with
      annotated := true }
  | .message =>
    table "Message" "app" "messages"
      [key,
       refersTo "sender" "sender_id" .user,
       refersTo "recipient" "recipient_id" .user,
       refersTo "about" "user_id" .user,
       (refersTo "reply_to" "reply_to_id" .message).asNullable,
       collects "replies" .message "reply_to",
       links "labels" .tag]
  | .weird =>
    { table "Weird" "app" "we\"ird\x60tab"
      [((scalar "id" .bigAuto).withColumn "i\"d").asPrimaryKey,
       (scalar "sel" .text).withColumn "sel\x60ect",
       refersTo "up" "p\"k\x60x" .weird,
       links "peers" .weird] with
      ordering := ["-sel"] }
  | .tick =>
    table "Tick" "app" "ticks"
      [key,
       scalar "serial" .auto]
  | .logLine =>
    table "LogLine" "app" "log_lines"
      [scalar "line" .text,
       (scalar "digest" .binary).asUnique,
       refersTo "tag" "tag_id" .tag,
       collects "uses" .logUse "line"]
  | .logUse =>
    table "LogUse" "app" "log_uses"
      [key,
       refersTo "line" "line_id" .logLine,
       links "lines" .logLine]
  | .broken =>
    { table "Broken" "app" "broken"
      [key,
       scalar "name" .text,
       collects "tags" .tag "ghost",
       behind "bio" .bio "ghost",
       linksThrough "genres" .genre .bookGenre "ghost" "genre",
       linksThrough "genres2" .genre .bookGenre "book" "spook"] with
      ordering := ["ghost"] }
  | .gauge =>
    { table "Gauge" "app" "gauges"
      [(scalar "level" .float).asPrimaryKey,
       (scalar "seq" .bigAuto).asUnique.asNullable.storedIn .int64 true,
       (scalar "label" .text).asNullable.storedIn .string true,
       links "posts" .post] with
      annotated := true }

/-- The sample of that type name. -/
def ofName? (name : String) : Option Sample :=
  all.find? fun s => (schema s).typeName == name

end Sample

end Orm
