import ExprTyping.Catalog.Basic

/-!
# The Foundation classes

The catalog every program can rely on: the root class, the untyped collections and the common
value classes.
-/

namespace ExprTyping.Catalog

namespace Foundation

/-- The class `NSObject`. -/
def nsObject : KnownType where
  typeName := "NSObject"
  constructors := [⟨[]⟩]
  properties := [⟨"description", .string, false⟩, ⟨"hash", .int, false⟩]
  methods :=
    [⟨"isEqual", [.unlabeled "object" (.optional .anyObject)], .bool, false⟩,
     ⟨"copy", [], .any, false⟩]

/-- The class `NSArray`. -/
def nsArray : KnownType where
  typeName := "NSArray"
  supertypeName := some "NSObject"
  constructors := [⟨[]⟩, ⟨[⟨"array", "array", .named "NSArray"⟩]⟩]
  properties :=
    [⟨"count", .int, false⟩, ⟨"firstObject", .optional .anyObject, false⟩,
     ⟨"lastObject", .optional .anyObject, false⟩]
  methods :=
    [⟨"array", [], .named "NSArray", true⟩,
     ⟨"object", [⟨"at", "index", .int⟩], .anyObject, false⟩,
     ⟨"contains", [.unlabeled "anObject" .anyObject], .bool, false⟩,
     ⟨"index", [⟨"of", "anObject", .anyObject⟩], .int, false⟩]

/-- The class `NSMutableArray`. -/
def nsMutableArray : KnownType where
  typeName := "NSMutableArray"
  supertypeName := some "NSArray"
  constructors := [⟨[]⟩, ⟨[⟨"capacity", "numItems", .int⟩]⟩]
  methods :=
    [⟨"array", [], .named "NSMutableArray", true⟩,
     ⟨"add", [.unlabeled "anObject" .anyObject], .void, false⟩,
     ⟨"addObjects", [⟨"from", "otherArray", .named "NSArray"⟩], .void, false⟩,
     ⟨"insert", [.unlabeled "anObject" .anyObject, ⟨"at", "index", .int⟩], .void, false⟩,
     ⟨"removeObject", [⟨"at", "index", .int⟩], .void, false⟩,
     ⟨"removeLastObject", [], .void, false⟩,
     ⟨"removeAllObjects", [], .void, false⟩]

/-- The class `NSDictionary`. -/
def nsDictionary : KnownType where
  typeName := "NSDictionary"
  supertypeName := some "NSObject"
  constructors := [⟨[]⟩, ⟨[⟨"dictionary", "otherDictionary", .named "NSDictionary"⟩]⟩]
  properties :=
    [⟨"count", .int, false⟩, ⟨"allKeys", .generic "Array" [.any], false⟩,
     ⟨"allValues", .generic "Array" [.any], false⟩]
  methods :=
    [⟨"dictionary", [], .named "NSDictionary", true⟩,
     ⟨"object", [⟨"forKey", "aKey", .any⟩], .optional .any, false⟩]

/-- The class `NSMutableDictionary`. -/
def nsMutableDictionary : KnownType where
  typeName := "NSMutableDictionary"
  supertypeName := some "NSDictionary"
  constructors := [⟨[]⟩, ⟨[⟨"capacity", "numItems", .int⟩]⟩]
  methods :=
    [⟨"dictionary", [], .named "NSMutableDictionary", true⟩,
     ⟨"setObject", [.unlabeled "anObject" .any, ⟨"forKey", "aKey", .anyObject⟩], .void, false⟩,
     ⟨"removeObject", [⟨"forKey", "aKey", .any⟩], .void, false⟩,
     ⟨"removeAllObjects", [], .void, false⟩]

/-- The class `NSSet`. -/
def nsSet : KnownType where
  typeName := "NSSet"
  supertypeName := some "NSObject"
  constructors := [⟨[]⟩, ⟨[⟨"array", "array", .named "NSArray"⟩]⟩]
  properties := [⟨"count", .int, false⟩, ⟨"allObjects", .generic "Array" [.any], false⟩]
  methods :=
    [⟨"set", [], .named "NSSet", true⟩,
     ⟨"contains", [.unlabeled "anObject" .any], .bool, false⟩,
     ⟨"anyObject", [], .optional .any, false⟩]

/-- The class `NSMutableSet`. -/
def nsMutableSet : KnownType where
  typeName := "NSMutableSet"
  supertypeName := some "NSSet"
  constructors := [⟨[]⟩, ⟨[⟨"capacity", "numItems", .int⟩]⟩]
  methods :=
    [⟨"set", [], .named "NSMutableSet", true⟩,
     ⟨"add", [.unlabeled "object" .any], .void, false⟩,
     ⟨"remove", [.unlabeled "object" .any], .void, false⟩,
     ⟨"removeAllObjects", [], .void, false⟩]

/-- The class `NSString`. -/
def nsString : KnownType where
  typeName := "NSString"
  supertypeName := some "NSObject"
  constructors := [⟨[]⟩, ⟨[⟨"string", "aString", .string⟩]⟩]
  properties :=
    [⟨"length", .int, false⟩, ⟨"uppercased", .string, false⟩, ⟨"lowercased", .string, false⟩]
  methods :=
    [⟨"isEqual", [⟨"to", "aString", .string⟩], .bool, false⟩,
     ⟨"hasPrefix", [.unlabeled "str" .string], .bool, false⟩,
     ⟨"hasSuffix", [.unlabeled "str" .string], .bool, false⟩,
     ⟨"appending", [.unlabeled "aString" .string], .string, false⟩]

/-- The class `NSDate`. -/
def nsDate : KnownType where
  typeName := "NSDate"
  supertypeName := some "NSObject"
  constructors := [⟨[]⟩, ⟨[⟨"timeIntervalSinceNow", "secs", .named "TimeInterval"⟩]⟩]
  properties :=
    [⟨"timeIntervalSince1970", .named "TimeInterval", false⟩,
     ⟨"timeIntervalSinceNow", .named "TimeInterval", false⟩]
  methods :=
    [⟨"date", [], .named "NSDate", true⟩,
     ⟨"timeIntervalSince", [.unlabeled "anotherDate" (.named "NSDate")], .named "TimeInterval",
      false⟩]

/-- The class `NSTimeZone`. -/
def nsTimeZone : KnownType where
  typeName := "NSTimeZone"
  supertypeName := some "NSObject"
  properties :=
    [⟨"name", .string, false⟩, ⟨"abbreviation", .optional .string, false⟩,
     ⟨"systemTimeZone", .named "NSTimeZone", true⟩, ⟨"localTimeZone", .named "NSTimeZone", true⟩,
     ⟨"defaultTimeZone", .named "NSTimeZone", true⟩]
  methods :=
    [⟨"secondsFromGMT", [⟨"for", "aDate", .named "NSDate"⟩], .int, false⟩]

/-- The class `NSLocale`. -/
def nsLocale : KnownType where
  typeName := "NSLocale"
  supertypeName := some "NSObject"
  constructors := [⟨[⟨"localeIdentifier", "string", .string⟩]⟩]
  properties :=
    [⟨"localeIdentifier", .string, false⟩, ⟨"currentLocale", .named "NSLocale", true⟩,
     ⟨"systemLocale", .named "NSLocale", true⟩,
     ⟨"autoupdatingCurrentLocale", .named "NSLocale", true⟩]

/-- All Foundation classes, each after its supertype. -/
def types : List KnownType :=
  [nsObject, nsArray, nsMutableArray, nsDictionary, nsMutableDictionary, nsSet,
   nsMutableSet, nsString, nsDate, nsTimeZone, nsLocale]

end Foundation

/-- The catalog of the Foundation classes. -/
def foundation : Catalog := ⟨Foundation.types, by decide⟩

end ExprTyping.Catalog
