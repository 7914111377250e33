/-!
# The library of checkers

The module that emitted code imports the standard checkers from. Each of its functions answers as
the checker of the same name in `Check/Standard`.
-/

namespace ValidatorGen.Check

def libraryLines : List String := [
  "// @flow strict",
  "",
  "export const deBool = (x: mixed): boolean | Error => \x7b",
  "  if(typeof x != 'boolean') \x7b",
  "    return new Error('Could not deserialize \"' + String(x) + '\" into a bool.')",
  "  \x7d",
  "  else \x7b",
  "    return x",
  "  \x7d",
  "\x7d",
  "",
  "export const deNumber = (x: mixed): number | Error => \x7b",
  "  if(typeof x != 'number') \x7b",
  "    return new Error('Could not deserialize \"' + String(x) + '\" into a number.')",
  "  \x7d",
  "  else \x7b",
  "    return x",
  "  \x7d",
  "\x7d",
  "",
  "export const deString = (x: mixed): string | Error => \x7b",
  "  if(typeof x != 'string') \x7b",
  "    return new Error('Could not deserialize \"' + String(x) + '\" into a string.')",
  "  \x7d",
  "  else \x7b",
  "    return x",
  "  \x7d",
  "\x7d",
  "",
  "export const deField = <T>(",
  "  name: string,",
  "  deserializer: (mixed) => T | Error,",
  "  x: mixed,",
  "): T | Error => \x7b",
  "  const deserialized = deserializer(x)",
  "  if(deserialized instanceof Error) \x7b",
  "    return new Error('Could not deserialize field ' + name + ': ' + deserialized.message)",
  "  \x7d",
  "  else \x7b",
  "    return deserialized",
  "  \x7d",
  "\x7d",
  "",
  "export const deList = <T>(",
  "  elementDeserializer: (mixed) => T | Error,",
  "  value: mixed,",
  "): Array<T> | Error => \x7b",
  "  if(Array.isArray(value)) \x7b",
  "    const list: Array<T> = []",
  "    const errors: Array<string> = []",
  "    value.forEach((element: mixed, index: number) => \x7b",
  "      const result = elementDeserializer(element)",
  "      if(result instanceof Error) \x7b",
  "        errors.push('at index ' + String(index) + ': ' + result.message)",
  "      \x7d",
  "      else \x7b",
  "        list.push(result)",
  "      \x7d",
  "    \x7d)",
  "    if(errors.length > 0) \x7b",
  "      return new Error('Could not deserialize list due to errors in the elements: ' + " ++
    "errors.join('\\n'))",
  "    \x7d",
  "    else \x7b",
  "      return list",
  "    \x7d",
  "  \x7d",
  "  else \x7b",
  "    return new Error('Could not deserialize \"' + String(value) + '\" into an Array')",
  "  \x7d",
  "\x7d",
  "",
  "export const deMapping = <K: string, V>(",
  "  keyDeserializer: (mixed) => K | Error,",
  "  valueDeserializer: (mixed) => V | Error,",
  "  x: mixed,",
  "): \x7b[K]: V\x7d | Error => \x7b",
  "  if(x == null || typeof x != 'object') \x7b",
  "    return new Error('Could not deserialize ' + String(x) + ' into an object.')",
  "  \x7d",
  "  else \x7b",
  "    const keys = deList(keyDeserializer, Object.keys(x))",
  "    if(keys instanceof Error) \x7b",
  "      return new Error('Could not deserialize keys: ' + keys.message)",
  "    \x7d",
  "    else \x7b",
  "      const values = deList(valueDeserializer, Object.values(x))",
  "      if(values instanceof Error) \x7b",
  "        return new Error('Could not deserialize values: ' + values.message)",
  "      \x7d",
  "      else \x7b",
  "        const result: \x7b[K]: V\x7d = \x7b\x7d",
  "        for(let i = 0; i < keys.length; ++i) \x7b",
  "          result[keys[i]] = values[i]",
  "        \x7d",
  "        return result",
  "      \x7d",
  "    \x7d",
  "  \x7d",
  "\x7d"]

def library : String := "\n".intercalate libraryLines ++ "\n"

end ValidatorGen.Check
